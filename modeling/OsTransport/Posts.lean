import OsTransport.Barrier
import OsTransport.StopAndWait

/-!
# The writes and copies of one request

`Kept.issues_isPrefix`: the operations workers have issued for a request with a key of its own are those of its
first tasks, in order and outcomes aside. `Opening` follows the one write the call itself posts. When the
tasks of a send are only woken by completions of its writes, no write overtakes another: what URMA has taken
of it is a prefix of its writes (`Sent`).
-/

namespace OsTransport

namespace Op

/-- The write, when URMA took it. -/
def written? : Op → Option JfsWr
  | .firstPost wr true | .post _ wr true => some wr
  | _ => none

/-- The copy, when CUDA took it. -/
def copied? : Op → Option ChunkInfo
  | .copy _ dst src len true => some ⟨src, dst, len⟩
  | _ => none

end Op

namespace Request
variable {ρ : Type} (a : Request) (q : ρ)

/-- The write that the call posts itself. -/
def headWr : JfsWr := if a.len.toNat ≤ defaultChunkSize then a.singleWr else a.firstWr

variable {a q}

theorem posted_eq (ht : a.type = .send) :
    a.posted q = a.headWr :: (List.range (chunksNum a.len - 1)).map fun i => a.taskWr (i + 1) := by
  unfold headWr
  split
  · rename_i hle
    have hnum : chunksNum a.len - 1 = 0 := by
      unfold chunksNum defaultChunkSize at *
      omega
    rw [posted_short hle, hnum]
    rfl
  · rename_i hle
    exact posted_split ht (Nat.not_le.1 hle)

theorem dueOps_send (ht : a.type = .send) {k : Nat} {op : Op} (h : a.dueOps[k]? = some op) :
    op = .post (k + 1) (a.taskWr (k + 1)) true ∧ (a.posted q)[k + 1]? = some (a.taskWr (k + 1)) := by
  rw [dueOps, taskChunks, ht, List.getElem?_map, Option.map_eq_some_iff] at h
  obtain ⟨i, hi, rfl⟩ := h
  obtain ⟨hk, rfl⟩ := List.getElem?_eq_some_iff.1 hi
  rw [List.length_range'] at hk
  have hchunk : (List.range' 1 (chunksNum a.len - 1))[k] = k + 1 := by
    rw [List.getElem_range']
    omega
  refine ⟨by rw [hchunk], ?_⟩
  rw [posted_eq ht, List.getElem?_cons_succ, List.getElem?_map, List.getElem?_range hk]
  rfl

theorem dueOps_recv (ht : a.type = .recv) {k : Nat} {op : Op} (h : a.dueOps[k]? = some op) :
    op = Sys.copyOp a k ∧ k < chunksNum a.len := by
  rw [dueOps, taskChunks, ht, List.getElem?_map, Option.map_eq_some_iff] at h
  obtain ⟨i, hi, rfl⟩ := h
  obtain ⟨hk, rfl⟩ := List.getElem?_eq_some_iff.1 hi
  rw [List.length_range] at hk
  exact ⟨by rw [List.getElem_range], hk⟩

theorem copies_eq_dueOps : a.copies q = a.dueOps.filterMap Op.copied? := by
  rw [copies, taskArgs_issueOp]
  refine List.filterMap_congr fun op hop => ?_
  obtain ⟨i, -, rfl⟩ := List.mem_map.1 hop
  cases a.type <;> rfl

end Request

namespace Progress
variable {ρ ψ : Type} {a : Request} {q : ρ} {act : Action ρ ψ} {v v' : Progress ρ ψ} {x : Transfer}

/-- What a step may add to the operations of a request. -/
inductive Adds (a : Request) (v : Progress ρ ψ) : Op → Prop
  | single (ok : Bool) (hc : v.transfer.caller = .idle) (hlen : a.len ≠ 0) (ht : a.type = .send)
      (hle : a.len.toNat ≤ defaultChunkSize) : Adds a v (.firstPost a.singleWr ok)
  | firstPost (i : Nat) (ok : Bool) (hc : v.transfer.caller = .posting i) (ht : a.type = .send) :
      Adds a v (.firstPost a.firstWr ok)
  | issue (i : Fin 64) (task : ThreadPoolTask (Tid ρ ψ) (TaskArg ρ) Empty) (ok : Bool)
      (hr : v.run i = some (task, .issue)) : Adds a v (Sys.issueOp a task.taskArg.userArg ok)
  | record : Adds a v .record
  | freed (op : Op) (hf : v.transfer.freed = true) (hop : ∃ c, op = .wild c ∨ op = .stale c) : Adds a v op

theorem Move.adds (hm : Move a q v act v') :
    v'.transfer.ops = v.transfer.ops ∨ ∃ op, v'.transfer.ops = v.transfer.ops ++ [op] ∧ Adds a v op := by
  cases hm with
  | single o hc hlen ht hle => exact .inr ⟨_, rfl, .single o.ok hc hlen ht hle⟩
  | firstPost o i hc ht => exact .inr ⟨_, rfl, .firstPost i o.ok hc ht⟩
  | stay i o task pc pc' x hr hs =>
    cases hs with
    | issue hf => exact .inr ⟨_, rfl, .issue i task o.ok hr⟩
    | _ => exact .inl rfl
  | leave i o task pc x hr hl =>
    cases hl with
    | record => exact .inr ⟨_, rfl, .record⟩
    | wild hf => exact .inr ⟨_, rfl, .freed _ hf ⟨_, .inl rfl⟩⟩
    | stale pc hpc hf => exact .inr ⟨_, rfl, .freed _ hf ⟨_, .inr rfl⟩⟩
    | _ => exact .inl rfl
  | _ => exact .inl rfl

/-- What the call itself has posted. -/
def firsts (x : Transfer) : List Op := x.ops.filter fun op => !byWorker op

theorem firsts_snoc {op : Op} : firsts { x with ops := x.ops ++ [op] } = firsts x ++ if byWorker op then [] else [op] := by
  rw [firsts, firsts, List.filter_append]
  congr 1
  cases hop : byWorker op <;> simp [hop]

theorem written_split (x : Transfer) : (x.ops.filterMap Op.written?).length =
    ((firsts x).filterMap Op.written?).length + ((issues x).filterMap Op.written?).length := by
  have hissues : ((issues x).filterMap Op.written?).length = ((workerOps x).filterMap Op.written?).length := by
    rw [issues, List.filterMap_filter]
    congr 1
    refine List.filterMap_congr fun op hop => ?_
    have hop : byWorker op = true := (List.mem_filter.1 hop).2
    cases op with
    | firstPost => cases hop
    | _ => rfl
  rw [hissues]
  simp only [List.length_filterMap_eq_countP, firsts, workerOps]
  rw [List.countP_eq_countP_filter_add _ _ byWorker, Nat.add_comm]

section
variable {x' : Transfer} {op : Op}

theorem issues_of_snoc (h : x'.ops = x.ops ++ [op]) :
    issues x' = issues x ++ if byWorker op && (issued? op).isSome then [op] else [] := by
  simp only [issues, workerOps, h, List.filter_append]
  congr 1
  cases hop : byWorker op <;> cases hi : (issued? op).isSome <;> simp [hop, hi]

theorem firsts_of_snoc (h : x'.ops = x.ops ++ [op]) : firsts x' = firsts x ++ if byWorker op then [] else [op] := by
  rw [← firsts_snoc, firsts, firsts, h]

theorem written_of_snoc (h : x'.ops = x.ops ++ [op]) :
    x'.ops.filterMap Op.written? = x.ops.filterMap Op.written? ++ (Op.written? op).toList := by
  rw [h, List.filterMap_append]
  congr 1

end

/-- The write of the call: none before it, and then one. -/
structure Opening (a : Request) (x : Transfer) : Prop where
  before : (x.caller = .idle ∨ x.caller = .registering ∨ ∃ i, x.caller = .posting i) → firsts x = []
  once : firsts x = [] ∨ ∃ ok, firsts x = [.firstPost a.headWr ok]

/-- What URMA has taken of a send is a prefix of its writes, the write of the call first. -/
structure Sent (a : Request) (q : ρ) (x : Transfer) : Prop where
  written : x.ops.filterMap Op.written? <+: a.posted q
  opened : issues x ≠ [] → firsts x = [.firstPost a.headWr true]

theorem Sent.congr (h : Sent a q x) {x' : Transfer} (ho : x'.ops = x.ops) : Sent a q x' := by
  have hissues : issues x' = issues x := by rw [issues, issues, workerOps, workerOps, ho]
  exact ⟨ho ▸ h.written, fun hne => (by rw [firsts, ho]; exact h.opened (hissues ▸ hne))⟩

theorem Sent.headers (h : Sent a q x) (ht : a.type = .send) {wr : JfsWr} (hwr : wr ∈ x.ops.filterMap Op.written?) :
    wr.headers.1.requestId = a.key ∧ wr.headers.2.requestId = a.clientKey :=
  Request.headers_of_mem_posted ht (h.written.subset hwr)

theorem Sent.nothing (h : Sent a q x) (hf : firsts x = []) : issues x = [] ∧ x.ops.filterMap Op.written? = [] := by
  have hissues : issues x = [] := by
    by_contra hne
    cases (h.opened hne).symm.trans hf
  refine ⟨hissues, List.eq_nil_of_length_eq_zero ?_⟩
  rw [written_split, hf, hissues]
  rfl

theorem Sent.head (h : Sent a q x) (ht : a.type = .send) (hf : firsts x = []) {x' : Transfer} (ok : Bool)
    (ho : x'.ops = x.ops ++ [.firstPost a.headWr ok]) : Sent a q x' := by
  obtain ⟨hissues, hwritten⟩ := h.nothing hf
  constructor
  · rw [written_of_snoc ho, hwritten, Request.posted_eq ht]
    cases ok with
    | false => exact List.nil_prefix
    | true => exact List.prefix_append [_] _
  · intro hne
    rw [issues_of_snoc ho, hissues] at hne
    exact absurd rfl hne

/-- A task posts its chunk: it was woken after all writes before it. -/
theorem Sent.issue (h : Sent a q x) (ht : a.type = .send) {x' : Transfer} {op : Op}
    (ho : x'.ops = x.ops ++ [op]) (hop : byWorker op = true ∧ (issued? op).isSome = true)
    (hfirsts : firsts x = [] ∨ ∃ ok, firsts x = [.firstPost a.headWr ok])
    (hdue : (issues x').map attempt <+: a.dueOps)
    (hcount : (issues x').length ≤ (x.ops.filterMap Op.written?).length) : Sent a q x' := by
  have hissues := issues_of_snoc ho
  rw [hop.1, hop.2, Bool.true_and, if_pos rfl] at hissues
  have hle : ((issues x).filterMap Op.written?).length ≤ (issues x).length := List.length_filterMap_le _ _
  have hsplit := written_split x
  rw [hissues, List.length_append, List.length_singleton] at hcount
  -- the write of the call was taken, and so was every chunk before
  have hhead : firsts x = [.firstPost a.headWr true] := by
    rcases hfirsts with hf | ⟨ok, hf⟩
    · rw [hf] at hsplit
      simp only [List.filterMap_nil, List.length_nil] at hsplit
      omega
    · cases ok with
      | true => exact hf
      | false =>
        rw [hf] at hsplit
        simp only [List.filterMap_cons, List.filterMap_nil, Op.written?, List.length_nil] at hsplit
        omega
  have hlen : (x.ops.filterMap Op.written?).length = (issues x).length + 1 := by
    rw [hhead] at hsplit
    simp only [List.filterMap_cons, List.filterMap_nil, Op.written?, List.length_cons, List.length_nil] at hsplit
    omega
  have hget : a.dueOps[(issues x).length]? = some (attempt op) := by
    obtain ⟨l, hl⟩ := hdue
    rw [← hl, hissues]
    simp
  obtain ⟨hattempt, hposted⟩ := Request.dueOps_send (q := q) ht hget
  refine ⟨?_, fun _ => ?_⟩
  · rw [written_of_snoc ho]
    cases op with
    | post c wr ok =>
      cases ok with
      | false =>
        rw [show (Op.written? (.post c wr false)).toList = [] from rfl, List.append_nil]
        exact h.written
      | true =>
        obtain ⟨-, rfl, -⟩ := Op.post.inj hattempt
        obtain ⟨l, hl⟩ := h.written
        rw [← hl, ← hlen, List.getElem?_append_right le_rfl, Nat.sub_self] at hposted
        obtain ⟨y, l', rfl⟩ := List.exists_cons_of_ne_nil (l := l) (by rintro rfl; cases hposted)
        cases hposted
        rw [← hl]
        exact ⟨l', by simp [Op.written?, hlen]⟩
    | _ => cases hattempt
  · rw [firsts_of_snoc ho, hop.1, if_pos rfl, List.append_nil]
    exact hhead

end Progress

open Lts
namespace Sys
open Progress
variable {ρ ψ : Type} [DecidableEq ρ] [DecidableEq ψ] {args : ρ → Request} {s s' : Sys ρ ψ} {q : ρ}

omit [DecidableEq ρ] in
theorem Stay.firsts {a : Request} {arg : TaskArg ρ} {o : Oracle} {x x' : Transfer} {pc pc' : TaskPc}
    (h : Stay a arg o x pc pc' x') : Progress.firsts x' = Progress.firsts x := by
  cases h with
  | issue hf => rw [firsts_snoc, byWorker_issueOp, if_pos rfl, List.append_nil]
  | _ => rfl

omit [DecidableEq ρ] in
theorem Leave.firsts {arg : TaskArg ρ} {x x' : Transfer} {pc : TaskPc} (h : Leave arg x pc x') :
    Progress.firsts x' = Progress.firsts x := by
  cases h with
  | record | wild | stale => exact firsts_snoc.trans (List.append_nil _)
  | _ => rfl

omit [DecidableEq ρ] in
theorem Stay.recvPosts {a : Request} {arg : TaskArg ρ} {o : Oracle} {x x' : Transfer} {pc pc' : TaskPc}
    (h : Stay a arg o x pc pc' x') : x'.recvPosts = x.recvPosts := by
  cases h <;> rfl

omit [DecidableEq ρ] in
theorem Leave.recvPosts {arg : TaskArg ρ} {x x' : Transfer} {pc : TaskPc} (h : Leave arg x pc x') :
    x'.recvPosts = x.recvPosts := by
  cases h <;> rfl

theorem Linked.split_of_posting (hl : Linked args s) {i : Nat} (hc : (s.transfers q).caller = .posting i)
    (ht : (args q).type = .send) : ¬ (args q).len.toNat ≤ defaultChunkSize := by
  have hcaller := (hl.request q).caller
  rw [hc] at hcaller
  obtain ⟨⟨b, hb, -⟩, -⟩ := hcaller
  intro hle
  refine b.args_ne ?_
  rw [hb.args, Request.taskArgs, ht]
  have hnum : chunksNum (args q).len - 1 = 0 := by
    unfold chunksNum defaultChunkSize at *
    omega
  rw [hnum]
  rfl

theorem opening_step {act : Action ρ ψ} (h : Opening (args q) (s.transfers q)) (hl : Linked args s)
    (hs : step args s act = some s') : Opening (args q) (s'.transfers q) := by
  have hset : ∀ {q₀ : ρ} {x : Transfer}, s'.transfers = Function.update s.transfers q₀ x →
      (q = q₀ → Opening (args q) x) → Opening (args q) (s'.transfers q) := by
    intro q₀ x he hx
    rw [he, Function.update_apply]
    split
    · exact hx ‹_›
    · exact h
  -- the call moves on without a write
  have hmove : ∀ {q₀ : ρ} {x : Transfer}, s'.transfers = Function.update s.transfers q₀ x →
      x.ops = (s.transfers q₀).ops → ((s.transfers q₀).caller = .idle ∨ (s.transfers q₀).caller = .registering ∨
        (∃ i, (s.transfers q₀).caller = .posting i) ∨ x.caller = (s.transfers q₀).caller ∨ ∃ b ok, x.caller = .returned b ok) →
      Opening (args q) (s'.transfers q) := by
    intro q₀ x he ho hc
    refine hset he fun e => ?_
    subst e
    have hfirsts : firsts x = firsts (s.transfers q) := by rw [firsts, firsts, ho]
    refine ⟨fun hx => ?_, by rw [hfirsts]; exact h.once⟩
    rw [hfirsts]
    rcases hc with hc | hc | hc | hc | ⟨b, ok, hc⟩
    · exact h.before (.inl hc)
    · exact h.before (.inr (.inl hc))
    · exact h.before (.inr (.inr hc))
    · exact h.before (hc ▸ hx)
    · rw [hc] at hx
      rcases hx with hx | hx | ⟨i, hx⟩ <;> cases hx
  have htask : ∀ {q₀ : ρ} {x : Transfer}, s'.transfers = Function.update s.transfers q₀ x →
      firsts x = firsts (s.transfers q₀) → x.caller = (s.transfers q₀).caller → Opening (args q) (s'.transfers q) := by
    intro q₀ x he hf hc
    refine hset he fun e => ?_
    subst e
    exact ⟨fun hx => hf.trans (h.before (hc ▸ hx)), hf ▸ h.once⟩
  cases step_cases hs with
  | reject q₀ o hc => exact hmove rfl rfl (.inl hc)
  | single q₀ o hc hlen ht hle =>
    refine hset rfl fun e => ?_
    subst e
    have hnil := h.before (.inl hc)
    refine ⟨fun hx => ?_, .inr ⟨o.ok, ?_⟩⟩
    · rcases hx with hx | hx | ⟨i, hx⟩ <;> cases hx
    · refine firsts_snoc.trans ?_
      rw [hnil, Request.headWr, if_pos hle]
      rfl
  | register q₀ o p hc => exact hmove rfl rfl (.inl hc)
  | registered q₀ o ids hc => exact hmove rfl rfl (.inr (.inl hc))
  | refused q₀ o ret hc => exact hmove rfl rfl (.inr (.inl hc))
  | firstPost q₀ o i hc ht =>
    refine hset rfl fun e => ?_
    subst e
    have hnil := h.before (.inr (.inr ⟨i, hc⟩))
    refine ⟨fun hx => ?_, .inr ⟨o.ok, ?_⟩⟩
    · have : ∀ ok : Bool, (if ok then CallerPc.returned true true else .failing) = .returned true true ∨
          (if ok then CallerPc.returned true true else .failing) = .failing := by decide
      rcases this o.ok with he | he
      · rcases hx with hx | hx | ⟨i, hx⟩ <;> cases he.symm.trans hx
      · rcases hx with hx | hx | ⟨i, hx⟩ <;> cases he.symm.trans hx
    · refine firsts_snoc.trans ?_
      rw [hnil, Request.headWr, if_neg (hl.split_of_posting hc ht)]
      rfl
  | recvPost q₀ o i pc hc => exact hmove rfl rfl (.inr (.inr (.inl ⟨i, hc⟩)))
  | fail q₀ o hc => exact hmove rfl rfl (.inr (.inr (.inr (.inr ⟨_, _, rfl⟩))))
  | wait q₀ ok hc hw => exact hmove rfl rfl (.inr (.inr (.inr (.inl rfl))))
  | wake q₀ o hw => exact hmove rfl rfl (.inr (.inr (.inr (.inl rfl))))
  | success q₀ o hw => exact hmove rfl rfl (.inr (.inr (.inr (.inl rfl))))
  | cancel q₀ o p hw => exact hmove rfl rfl (.inr (.inr (.inr (.inl rfl))))
  | cancelled q₀ o ret hw => exact hmove rfl rfl (.inr (.inr (.inr (.inl rfl))))
  | free q₀ o ok hw => exact hmove rfl rfl (.inr (.inr (.inr (.inl rfl))))
  | stay i o task q₀ pc x hpc hq hst => exact htask rfl hst.firsts hst.frame.1
  | leave i o task q₀ x p hpc hq hl' hp => exact htask rfl hl'.firsts hl'.frame.1
  | _ => exact h

/-! ### The receive work requests of a call -/

/-- The work requests of the first `i` chunks, taken by URMA. -/
def recvTaken (a : Request) (i : Nat) : List (JfrWr × Bool) := (a.recvWrs.take i).map fun wr => (wr, true)

/-- The receive work requests handed to URMA, by where the call stands. -/
def RecvPosted (a : Request) (posts : List (JfrWr × Bool)) : CallerPc → Prop
  | .idle | .returned false _ => posts = []
  | .registering => posts = [] ∧ a.len ≠ 0
  | .posting i => a.type = .recv → i < chunksNum a.len ∧ posts = recvTaken a i
  | .returned true true => a.type = .recv → posts = recvTaken a (chunksNum a.len)
  -- a work request that URMA refuses is the last one
  | .failing | .returned true false => a.type = .recv → ∃ i < chunksNum a.len,
      posts = recvTaken a i ++ [(urmaRecvWithNotify a.key (a.chunk i), false)]

theorem recvTaken_succ {a : Request} {i : Nat} (hi : i < chunksNum a.len) :
    recvTaken a (i + 1) = recvTaken a i ++ [(urmaRecvWithNotify a.key (a.chunk i), true)] := by
  have hlen : i < a.recvWrs.length := by rwa [Request.recvWrs, List.length_map, List.length_range]
  have hget : a.recvWrs[i] = urmaRecvWithNotify a.key (a.chunk i) := by simp [Request.recvWrs]
  rw [recvTaken, List.take_succ_eq_append_getElem hlen, List.map_append, hget]
  rfl

theorem recvPosted_step {act : Action ρ ψ} (h : RecvPosted (args q) (s.transfers q).recvPosts (s.transfers q).caller)
    (hs : step args s act = some s') : RecvPosted (args q) (s'.transfers q).recvPosts (s'.transfers q).caller := by
  have hset : ∀ {q₀ : ρ} {x : Transfer}, s'.transfers = Function.update s.transfers q₀ x →
      (q = q₀ → RecvPosted (args q) x.recvPosts x.caller) →
      RecvPosted (args q) (s'.transfers q).recvPosts (s'.transfers q).caller := by
    intro q₀ x he hx
    rw [he, Function.update_apply]
    split
    · exact hx ‹_›
    · exact h
  -- the call does not move
  have hstay : ∀ {q₀ : ρ} {x : Transfer}, s'.transfers = Function.update s.transfers q₀ x →
      x.caller = (s.transfers q₀).caller → x.recvPosts = (s.transfers q₀).recvPosts →
      RecvPosted (args q) (s'.transfers q).recvPosts (s'.transfers q).caller := by
    intro q₀ x he hc hp
    refine hset he fun e => ?_
    subst e
    rw [hc, hp]
    exact h
  cases step_cases hs with
  | reject q₀ o hc =>
    refine hset rfl fun e => ?_
    subst e
    rwa [hc] at h
  | single q₀ o hc =>
    refine hset rfl fun e => ?_
    subst e
    rwa [hc] at h
  | register q₀ o p hc hlen =>
    refine hset rfl fun e => ?_
    subst e
    rw [hc] at h
    exact ⟨h, hlen⟩
  | registered q₀ o ids hc =>
    refine hset rfl fun e => ?_
    subst e
    rw [hc] at h
    exact fun _ => ⟨chunksNum_pos h.2, h.1⟩
  | refused q₀ o ret hc =>
    refine hset rfl fun e => ?_
    subst e
    rw [hc] at h
    exact h.1
  | firstPost q₀ o i hc ht =>
    refine hset rfl fun e => ?_
    subst e
    have hsend : (args q).type ≠ .recv := by rw [ht]; decide
    cases o.ok <;> exact fun hr => absurd hr hsend
  | recvPost q₀ o i pc hc ht hpc =>
    refine hset rfl fun e => ?_
    subst e
    rw [hc] at h
    obtain ⟨hi, hposts⟩ := h ht
    rcases hpc with ⟨rfl, ho⟩ | ⟨rfl, ho, hnext⟩ | ⟨rfl, ho, hlast⟩
    · exact fun _ => ⟨i, hi, by rw [hposts, ho]⟩
    · exact fun _ => ⟨hnext, by rw [hposts, ho, recvTaken_succ hi]⟩
    · obtain hi' : chunksNum (args q).len = i + 1 := by omega
      exact fun _ => by rw [hposts, ho, hi', recvTaken_succ hi]
  | fail q₀ o hc =>
    refine hset rfl fun e => ?_
    subst e
    rwa [hc] at h
  | wait q₀ ok hc hw => exact hstay rfl rfl rfl
  | wake q₀ o hw => exact hstay rfl rfl rfl
  | success q₀ o hw => exact hstay rfl rfl rfl
  | cancel q₀ o p hw => exact hstay rfl rfl rfl
  | cancelled q₀ o ret hw => exact hstay rfl rfl rfl
  | free q₀ o ok hw => exact hstay rfl rfl rfl
  | stay i o task q₀ pc x hpc hq hst => exact hstay rfl hst.frame.1 hst.recvPosts
  | leave i o task q₀ x p hpc hq hl hp => exact hstay rfl hl.frame.1 hl.recvPosts
  | _ => exact h

/-- In every reachable state, a receive that has returned 0 has handed all of its work requests to URMA, in order,
and URMA has taken them. -/
theorem recvPosts_of_returned {as : List (Action ρ ψ)} (h : exec (step args) start as = some s)
    (ht : (args q).type = .recv) (hc : (s.transfers q).caller = .returned true true) :
    (s.transfers q).recvPosts = (args q).recvWrs.map fun wr => (wr, true) := by
  have hstart : RecvPosted (args q) ((start : Sys ρ ψ).transfers q).recvPosts ((start : Sys ρ ψ).transfers q).caller :=
    rfl
  have hposted := exec_inv' (I := fun s => RecvPosted (args q) (s.transfers q).recvPosts (s.transfers q).caller)
    (fun _ _ _ hi hs => recvPosted_step hi hs) hstart h
  rw [hc] at hposted
  rw [hposted ht, recvTaken, List.take_of_length_le (by rw [Request.recvWrs, List.length_map, List.length_range])]

/-- What holds of a request with a key of its own, its operations included. -/
structure Booked (args : ρ → Request) (q : ρ) (s : Sys ρ ψ) : Prop where
  kept : Kept args q s
  issued : Issued (args q) (s.progress q)
  opening : Opening (args q) (s.transfers q)

theorem booked_start (q : ρ) : Booked args q (start : Sys ρ ψ) where
  kept := kept_start q
  issued := ⟨fun _ => rfl, fun i task pc hi => by cases hi⟩
  opening := ⟨fun _ => rfl, .inl rfl⟩

theorem Kept.not_freed (h : Kept args q s) {i : Fin 64} {task : ThreadPoolTask (Tid ρ ψ) (TaskArg ρ) Empty}
    (hi : (s.progress q).run i = some (task, .issue)) : (s.transfers q).freed = false := by
  by_contra hf
  exact (h.linked.late h.verdict h.quiet h.drains (by simpa using hf) hi).1.1 rfl

theorem Booked.step {act : Action ρ ψ} (h : Booked args q s) (hq : OwnKey args q) (ha : GetsContext args q s act)
    (hs : step args s act = some s') : Booked args q s' := by
  have hl := h.kept.linked
  have hissued : Issued (args q) (s'.progress q) := h.issued.step (hl.single q) ((hl.step hs).single q)
    (move hl hs q) fun i task hi => h.kept.not_freed hi
  exact ⟨h.kept.step hq ha hs, hissued, opening_step h.opening hl hs⟩

/-- The operations workers have issued are those of the first tasks, outcomes aside. -/
theorem Booked.issues_isPrefix (h : Booked args q s) : (issues (s.transfers q)).map attempt <+: (args q).dueOps := by
  rw [← Request.taskArgs_issueOp (q := q)]
  refine h.kept.linked.gathered_isPrefix (fun arg => issueOp (args q) arg true) h.issued fun task pc => ?_
  unfold started
  split
  · exact List.nil_prefix
  · exact List.prefix_refl _

theorem Booked.sent_step {act : Action ρ ψ} (h : Booked args q s) (h' : Booked args q s') (ht : (args q).type = .send)
    (hsent : Sent (args q) q (s.transfers q)) (hs : Sys.step args s act = some s')
    (hcount : (issues (s'.transfers q)).length ≤ ((s.transfers q).ops.filterMap Op.written?).length) :
    Sent (args q) q (s'.transfers q) := by
  rcases (move h.kept.linked hs q).adds with ho | ⟨op, ho, hadd⟩
  · exact hsent.congr ho
  replace ho : (s'.transfers q).ops = (s.transfers q).ops ++ [op] := ho
  -- an operation that posts nothing
  have hother : issues (s'.transfers q) = issues (s.transfers q) → Op.written? op = none → byWorker op = true →
      Sent (args q) q (s'.transfers q) := by
    intro hissues hw hb
    refine ⟨?_, fun hne => ?_⟩
    · rw [written_of_snoc ho, hw]
      simpa using hsent.written
    · rw [firsts_of_snoc ho, hb, if_pos rfl, List.append_nil]
      exact hsent.opened (hissues ▸ hne)
  cases hadd with
  | single ok hc hlen ht hle =>
    refine hsent.head ht (h.opening.before (.inl hc)) ok ?_
    rw [Request.headWr, if_pos hle]
    exact ho
  | firstPost i ok hc ht =>
    refine hsent.head ht (h.opening.before (.inr (.inr ⟨i, hc⟩))) ok ?_
    rw [Request.headWr, if_neg (h.kept.linked.split_of_posting hc ht)]
    exact ho
  | issue i task ok hr =>
    refine hsent.issue ht ho ⟨byWorker_issueOp .., ?_⟩ h.opening.once h'.issues_isPrefix hcount
    rw [issued?_issueOp]
    rfl
  | record => exact hother ((issues_of_snoc ho).trans (List.append_nil _)) rfl rfl
  | freed op hf hop =>
    obtain ⟨c, rfl | rfl⟩ := hop
    · refine absurd ?_ (h'.kept.safe.wild c)
      rw [ho]
      exact List.mem_append_right _ (List.mem_singleton_self _)
    · exact hother ((issues_of_snoc ho).trans (List.append_nil _)) rfl rfl

end Sys
end OsTransport
