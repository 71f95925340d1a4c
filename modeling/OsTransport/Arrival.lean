import OsTransport.Delivery

/-!
# A receive and the send it is paired with

A `Channel` is a sender's handle, a receiver's handle and the writes between them, with whatever other requests run on
the two handles. Of URMA a write is assumed to be notified at most once, after its bytes have arrived, and the writes of
one client key in the order in which they were posted. As long as no freed memory is used on either handle, the
receiver copies a chunk only after the notification of the write that filled it, and just what that write has filled
(`copied_arrived`). A freed context of another key is enough to break this (`early_copied`).
-/

namespace OsTransport
open Lts Progress

/-- The operation is one of the request, whether URMA or CUDA took it or not. -/
def Request.Own {ρ : Type} (a : Request) (q : ρ) : Op → Prop
  | .firstPost wr _ | .post _ wr _ => a.type = .send ∧ wr ∈ a.posted q
  | .copy c dst src len _ => c < chunksNum a.len ∧ a.chunk c = ⟨src, dst, len⟩
  | .record | .wild _ | .stale _ => True

namespace Sys
variable {ρ ψ : Type} [DecidableEq ρ] [DecidableEq ψ] {args : ρ → Request} {s s' : Sys ρ ψ} {q : ρ} {act : Action ρ ψ}

omit [DecidableEq ρ] in
theorem own_issueOp {a : Request} {arg : TaskArg ρ} (harg : arg ∈ a.taskArgs q) (ok : Bool) :
    a.Own q (issueOp a arg ok) := by
  unfold Request.taskArgs at harg
  cases ht : a.type with
  | send =>
    rw [ht] at harg
    obtain ⟨i, hi, rfl⟩ := List.mem_map.1 harg
    refine ⟨ht, ?_⟩
    rw [Request.posted_eq ht]
    exact List.mem_cons_of_mem _ (List.mem_map.2 ⟨i, hi, rfl⟩)
  | recv =>
    rw [ht] at harg
    obtain ⟨i, hi, rfl⟩ := List.mem_map.1 harg
    exact ⟨List.mem_range.1 hi, rfl⟩

/-- The operations made for a request are its own. -/
theorem own_step (h : ∀ op ∈ (s.transfers q).ops, (args q).Own q op) (hl : Linked args s) (hs : step args s act = some s') :
    ∀ op ∈ (s'.transfers q).ops, (args q).Own q op := by
  rcases (move hl hs q).adds with ho | ⟨op, ho, hadd⟩
  · replace ho : (s'.transfers q).ops = (s.transfers q).ops := ho
    rwa [ho]
  replace ho : (s'.transfers q).ops = (s.transfers q).ops ++ [op] := ho
  rw [ho]
  rintro op' hop
  rcases List.mem_append.1 hop with hop | hop
  · exact h op' hop
  obtain rfl := List.mem_singleton.1 hop
  cases hadd with
  | single ok hc hlen ht hle => exact ⟨ht, by rw [Request.posted_short hle]; exact List.mem_singleton_self _⟩
  | firstPost i ok hc ht =>
    have hcaller : (s.transfers q).caller = .posting i := hc
    refine ⟨ht, ?_⟩
    rw [Request.posted_split ht (Nat.not_le.1 (hl.split_of_posting hcaller ht))]
    exact List.mem_cons_self ..
  | issue i task ok hr =>
    obtain ⟨hpc, ho, -⟩ := run_eq_some.1 hr
    obtain ⟨q', ho', -, harg, -⟩ := hl.task (.inr hpc)
    obtain rfl : q = q' := Tid.caller.inj (ho.symm.trans ho')
    exact own_issueOp harg ok
  | record => trivial
  | freed op hf hop =>
    obtain ⟨c, rfl | rfl⟩ := hop <;> trivial

omit [DecidableEq ρ] [DecidableEq ψ] in
theorem posted_of_own (hown : ∀ op ∈ (s.transfers q).ops, (args q).Own q op) {wr : JfsWr}
    (hwr : wr ∈ (s.transfers q).ops.filterMap Op.written?) :
    (args q).type = .send ∧ wr ∈ (args q).posted q := by
  obtain ⟨op, hop, hw⟩ := List.mem_filterMap.1 hwr
  have := hown op hop
  cases op with
  | firstPost wr' ok =>
    cases ok <;> cases hw
    exact this
  | post c wr' ok =>
    cases ok <;> cases hw
    exact this
  | _ => cases hw

omit [DecidableEq ρ] [DecidableEq ψ] in
/-- The request whose operations the action may add to, in memory. -/
def concernsIn (s : Sys ρ ψ) (x : Action ρ ψ × Found ρ ψ) : Option ρ :=
  match s.misuse x.1, x.2.arg with
  | some _, some arg => some arg.sync
  | _, _ => s.concerns x.1

omit [DecidableEq ρ] [DecidableEq ψ] in
/-- The writes URMA has taken in the step from `s` to `s'`. -/
def written (s s' : Sys ρ ψ) (x : Action ρ ψ × Found ρ ψ) : List JfsWr :=
  match s.concernsIn x with
  | some q => ((s'.transfers q).ops.drop (s.transfers q).ops.length).filterMap Op.written?
  | none => []

theorem written_of_noMisuse {x : Action ρ ψ × Found ρ ψ} (h : NoMisuse s x) :
    s.written s' x = (s.added s' x.1).filterMap Op.written? := by
  rw [written, concernsIn, h.2, added]
  cases s.concerns x.1 <;> rfl

end Sys

structure Channel (ρ ψ ρ' ψ' : Type) where
  sender : Sys ρ ψ
  receiver : Sys ρ' ψ'
  /-- the writes whose bytes have not arrived -/
  flying : List JfsWr
  /-- the writes that have arrived and were not notified -/
  landed : List JfsWr
  /-- the writes whose notification was handled -/
  notified : List JfsWr

inductive ChannelAct (ρ ψ ρ' ψ' : Type)
  /-- a step of the sender's handle -/
  | sender (x : Action ρ ψ × Found ρ ψ)
  /-- a step of the receiver's handle -/
  | receiver (x : Action ρ' ψ' × Found ρ' ψ')
  /-- the bytes of the first write for client key `r` arrive -/
  | land (r : UInt32)
  /-- its notification is handled -/
  | notify (k : ψ') (r : UInt32) (o : Oracle)

namespace Channel
variable {ρ ψ ρ' ψ' : Type} [DecidableEq ρ] [DecidableEq ψ] [DecidableEq ρ'] [DecidableEq ψ']

def step (argsS : ρ → Request) (argsR : ρ' → Request) (w : Channel ρ ψ ρ' ψ') :
    ChannelAct ρ ψ ρ' ψ' → Option (Channel ρ ψ ρ' ψ')
  | .sender x => (w.sender.memStep argsS x).map fun s => { w with sender := s, flying := w.flying ++ w.sender.written s x }
  | .receiver x => (w.receiver.memStep argsR x).map fun s => { w with receiver := s }
  | .land r => (popFirst (JfsWr.notifies r) w.flying).map fun (wr, rest) =>
    { w with flying := rest, landed := w.landed ++ [wr] }
  | .notify k r o =>
    match popFirst (JfsWr.notifies r) w.landed with
    | some (wr, rest) =>
      (w.receiver.step argsR (.wakeUpTask k ⟨.writeWithImm, wr.notifyData, 0⟩ o)).map fun s =>
        { w with receiver := s, landed := rest, notified := w.notified ++ [wr] }
    | none => none

/-- Two handles after `os_transport_init`. -/
def start : Channel ρ ψ ρ' ψ' where
  sender := Sys.start
  receiver := Sys.start
  flying := []
  landed := []
  notified := []

/-- What is assumed: the send posts its chunks in order, and the receiver handles no completion for its client key but
the notifications of its writes. -/
def Assumed (argsS : ρ → Request) (argsR : ρ' → Request) (q : ρ) (q' : ρ') (w : Channel ρ ψ ρ' ψ') :
    ChannelAct ρ ψ ρ' ψ' → Prop
  | .sender x => ∀ s ∈ w.sender.memStep argsS x, (s.transfers q).ops.filterMap Op.written? <+: (argsS q).posted q
  | .receiver x => Sys.handles (argsR q').key x.1 = false
  | .land _ | .notify .. => True

/-- No freed memory is used on either handle. -/
def NoMisuse (w : Channel ρ ψ ρ' ψ') : ChannelAct ρ ψ ρ' ψ' → Prop
  | .sender x => Sys.NoMisuse w.sender x
  | .receiver x => Sys.NoMisuse w.receiver x
  | .land _ | .notify .. => True

instance decidableAssumed (argsS : ρ → Request) (argsR : ρ' → Request) (q : ρ) (q' : ρ') (w : Channel ρ ψ ρ' ψ')
    (act : ChannelAct ρ ψ ρ' ψ') : Decidable (Assumed argsS argsR q q' w act) :=
  match act with
  | .sender _ => inferInstanceAs (Decidable (∀ _ ∈ _, _))
  | .receiver _ => inferInstanceAs (Decidable (_ = _))
  | .land _ | .notify .. => .isTrue trivial

instance decidableNoMisuse (w : Channel ρ ψ ρ' ψ') (act : ChannelAct ρ ψ ρ' ψ') : Decidable (NoMisuse w act) :=
  match act with
  | .sender x => inferInstanceAs (Decidable (Sys.NoMisuse w.sender x))
  | .receiver x => inferInstanceAs (Decidable (Sys.NoMisuse w.receiver x))
  | .land _ | .notify .. => .isTrue trivial

/-! ### The cases of a step -/

inductive Step (argsS : ρ → Request) (argsR : ρ' → Request) (w : Channel ρ ψ ρ' ψ') :
    ChannelAct ρ ψ ρ' ψ' → Channel ρ ψ ρ' ψ' → Prop
  | sender (x : Action ρ ψ × Found ρ ψ) (s : Sys ρ ψ) (hs : w.sender.memStep argsS x = some s) :
      Step argsS argsR w (.sender x) { w with sender := s, flying := w.flying ++ w.sender.written s x }
  | receiver (x : Action ρ' ψ' × Found ρ' ψ') (s : Sys ρ' ψ') (hs : w.receiver.memStep argsR x = some s) :
      Step argsS argsR w (.receiver x) { w with receiver := s }
  | land (r : UInt32) (wr : JfsWr) (rest : List JfsWr) (hpop : popFirst (JfsWr.notifies r) w.flying = some (wr, rest)) :
      Step argsS argsR w (.land r) { w with flying := rest, landed := w.landed ++ [wr] }
  | notify (k : ψ') (r : UInt32) (o : Oracle) (wr : JfsWr) (rest : List JfsWr) (s : Sys ρ' ψ')
      (hpop : popFirst (JfsWr.notifies r) w.landed = some (wr, rest))
      (hs : w.receiver.step argsR (.wakeUpTask k ⟨.writeWithImm, wr.notifyData, 0⟩ o) = some s) :
      Step argsS argsR w (.notify k r o) { w with receiver := s, landed := rest, notified := w.notified ++ [wr] }

variable {argsS : ρ → Request} {argsR : ρ' → Request} {w w' : Channel ρ ψ ρ' ψ'} {q : ρ} {q' : ρ'}

theorem step_cases {act : ChannelAct ρ ψ ρ' ψ'} (h : w.step argsS argsR act = some w') : Step argsS argsR w act w' := by
  cases act with
  | sender x =>
    obtain ⟨s, hs, rfl⟩ := Option.map_eq_some_iff.1 h
    exact .sender x s hs
  | receiver x =>
    obtain ⟨s, hs, rfl⟩ := Option.map_eq_some_iff.1 h
    exact .receiver x s hs
  | land r =>
    obtain ⟨⟨wr, rest⟩, hpop, rfl⟩ := Option.map_eq_some_iff.1 h
    exact .land r wr rest hpop
  | notify k r o =>
    simp only [step] at h
    split at h
    · rename_i wr rest hpop
      obtain ⟨s, hs, rfl⟩ := Option.map_eq_some_iff.1 h
      exact .notify k r o wr rest s hpop hs
    · cases h

/-! ### The writes in flight, and what the receiver was told -/

/-- What holds of the two handles and the writes between them. -/
structure Carries (argsS : ρ → Request) (argsR : ρ' → Request) (q : ρ) (q' : ρ') (w : Channel ρ ψ ρ' ψ') : Prop where
  linked : Sys.Linked argsS w.sender
  own : ∀ p, ∀ op ∈ (w.sender.transfers p).ops, (argsS p).Own p op
  posted : (w.sender.transfers q).ops.filterMap Op.written? <+: (argsS q).posted q
  order : (w.notified ++ w.landed ++ w.flying).filter (JfsWr.notifies (argsS q).clientKey) =
    (w.sender.transfers q).ops.filterMap Op.written?
  copies : ∀ op ∈ (w.receiver.transfers q').ops, (argsR q').Own q' op
  run : ∃ as, exec (Sys.step argsR) Sys.start as = some w.receiver ∧
    as.countP (Sys.handles (argsR q').key) = w.notified.countP (JfsWr.notifies (argsR q').key)

theorem carries_start (argsS : ρ → Request) (argsR : ρ' → Request) (q : ρ) (q' : ρ') :
    Carries argsS argsR q q' (start : Channel ρ ψ ρ' ψ') where
  linked := Sys.linked_start
  own p op hop := by cases hop
  posted := List.nil_prefix
  order := rfl
  copies op hop := by cases hop
  run := ⟨[], rfl, rfl⟩

theorem Carries.sender (h : Carries argsS argsR q q' w) (hp : Wire.Paired argsS argsR q q') {x : Action ρ ψ × Found ρ ψ}
    {s : Sys ρ ψ} (hn : Sys.NoMisuse w.sender x) (hin : (s.transfers q).ops.filterMap Op.written? <+: (argsS q).posted q)
    (hs : w.sender.memStep argsS x = some s) :
    Carries argsS argsR q q' { w with sender := s, flying := w.flying ++ w.sender.written s x } := by
  rw [Sys.memStep_of_noMisuse hn] at hs
  have hown : ∀ p, ∀ op ∈ (s.transfers p).ops, (argsS p).Own p op := fun p => Sys.own_step (h.own p) h.linked hs
  refine ⟨h.linked.step hs, hown, hin, ?_, h.copies, h.run⟩
  have hheader : ∀ p wr, wr ∈ (s.transfers p).ops.filterMap Op.written? → wr.headers.2.requestId = (argsS p).clientKey := by
    intro p wr hwr
    obtain ⟨ht, hmem⟩ := Sys.posted_of_own (hown p) hwr
    exact (Request.headers_of_mem_posted ht hmem).2
  change (w.notified ++ w.landed ++ (w.flying ++ _)).filter _ = (s.transfers q).ops.filterMap Op.written?
  rw [Wire.filter_added (P := JfsWr.notifies (argsS q).clientKey) h.linked hs (q := q), ← List.append_assoc,
    List.filter_append, h.order, Sys.written_of_noMisuse hn]
  · exact fun wr hwr => beq_iff_eq.2 (hheader q wr hwr)
  · intro p hne wr hwr
    rw [JfsWr.notifies, show (UserData.ofUserCtx wr.notifyData).requestId = _ from hheader p wr hwr]
    exact beq_eq_false_iff_ne.2 fun hk => hne (hp.only p hk)

theorem Carries.receiver (h : Carries argsS argsR q q' w) {act : Action ρ' ψ'} {s : Sys ρ' ψ'} {notified landed : List JfsWr}
    (hs : w.receiver.step argsR act = some s)
    (hcount : notified.countP (JfsWr.notifies (argsR q').key) =
      w.notified.countP (JfsWr.notifies (argsR q').key) + (Sys.handles (argsR q').key act).toNat)
    (horder : (notified ++ landed ++ w.flying).filter (JfsWr.notifies (argsS q).clientKey) =
      (w.notified ++ w.landed ++ w.flying).filter (JfsWr.notifies (argsS q).clientKey)) :
    Carries argsS argsR q q' { w with receiver := s, landed := landed, notified := notified } := by
  obtain ⟨as, hexec, hnum⟩ := h.run
  refine ⟨h.linked, h.own, h.posted, horder.trans h.order, Sys.own_step h.copies (Sys.linked hexec) hs,
    as ++ [act], exec_snoc.2 ⟨_, hexec, hs⟩, ?_⟩
  change _ = notified.countP _
  rw [hcount, List.countP_append, hnum, List.countP_singleton]
  cases Sys.handles (argsR q').key act <;> rfl

theorem Carries.step (h : Carries argsS argsR q q' w) (hp : Wire.Paired argsS argsR q q') {act : ChannelAct ρ ψ ρ' ψ'}
    (ha : Assumed argsS argsR q q' w act) (hn : NoMisuse w act) (hs : w.step argsS argsR act = some w') :
    Carries argsS argsR q q' w' := by
  cases step_cases hs with
  | sender x s hstep => exact h.sender hp hn (ha s hstep) hstep
  | receiver x s hstep =>
    have hhandles : Sys.handles (argsR q').key x.1 = false := ha
    rw [Sys.memStep_of_noMisuse hn] at hstep
    exact h.receiver hstep (by rw [hhandles]; rfl) rfl
  | land r wr rest hpop =>
    refine ⟨h.linked, h.own, h.posted, Eq.trans ?_ h.order, h.copies, h.run⟩
    simp only [List.filter_append, Wire.filter_popFirst hpop, List.append_assoc]
  | notify k r o wr rest s hpop hstep =>
    refine h.receiver hstep ?_ ?_
    · rw [List.countP_append, List.countP_singleton]
      change _ + (if JfsWr.notifies (argsR q').key wr then 1 else 0) = _ + (JfsWr.notifies (argsR q').key wr).toNat
      cases JfsWr.notifies (argsR q').key wr <;> rfl
    · simp only [List.filter_append, Wire.filter_popFirst hpop, List.append_assoc]

/-! ### Runs -/

section
variable {as : List (ChannelAct ρ ψ ρ' ψ')} (hsend : (argsS q).type = .send) (hrecv : (argsR q').type = .recv)
  (hp : Wire.Paired argsS argsR q q') (ha : Along (step argsS argsR) (Assumed argsS argsR q q') start as)
  (hn : Along (step argsS argsR) NoMisuse start as) (h : exec (step argsS argsR) start as = some w)
include hp ha hn h

theorem carries : Carries argsS argsR q q' w :=
  exec_inv (I := Carries argsS argsR q q') (fun _ _ _ hi ha hs => hi.step hp ha.1 ha.2 hs) (carries_start ..) (ha.and hn) h

include hsend hrecv in
/-- The receiver copies a chunk only after the notification of its write: the notifications handled for the client key
are those of the first chunks of the send, the chunks copied are among these, in order and each at most once, and each
copy reads just what the write of its chunk has filled. -/
theorem copied_arrived : w.notified.filter (JfsWr.notifies (argsR q').key) <+: (argsS q).posted q ∧
    (w.receiver.transfers q').ops.filterMap issued? <+:
      List.range (w.notified.filter (JfsWr.notifies (argsR q').key)).length ∧
    ∀ c dst src len ok, .copy c dst src len ok ∈ (w.receiver.transfers q').ops →
      ∃ wr, (w.notified.filter (JfsWr.notifies (argsR q').key))[c]? = some wr ∧ src = wr.dst ∧ len = wr.len := by
  have hc := carries hp ha hn h
  obtain ⟨as, hexec, hcount⟩ := hc.run
  have hnotified : w.notified.filter (JfsWr.notifies (argsR q').key) <+: (argsS q).posted q := by
    refine List.IsPrefix.trans ?_ hc.posted
    rw [← hc.order, ← hp.key, List.append_assoc, List.filter_append]
    exact List.prefix_append _ _
  have hissued : (w.receiver.transfers q').ops.filterMap issued? <+:
      List.range (w.notified.filter (JfsWr.notifies (argsR q').key)).length := by
    have hprefix := (Sys.linked hexec).chunks_isPrefix (Sys.traced hexec q')
    rw [Request.taskChunks, hrecv] at hprefix
    refine Wire.isPrefix_range hprefix ?_
    rw [← filterMap_issued?, length_issues, ← List.countP_eq_length_filter, ← hcount]
    exact Sys.issues_le_handled hexec q'
  refine ⟨hnotified, hissued, fun c dst src len ok hop => ?_⟩
  obtain ⟨hlt, hchunk⟩ := hc.copies _ hop
  have hmem : c ∈ List.range (w.notified.filter (JfsWr.notifies (argsR q').key)).length :=
    hissued.subset (List.mem_filterMap.2 ⟨_, hop, rfl⟩)
  have hlen : (argsS q).len ≠ 0 := by
    intro h₀
    rw [← hp.len, h₀, show chunksNum 0 = 0 from rfl] at hlt
    exact Nat.not_lt_zero _ hlt
  have hlt := List.mem_range.1 hmem
  obtain ⟨-, -, hdst, hcut⟩ := Request.posted_chunk hsend hlen (List.prefix_iff_getElem?.1 hnotified c hlt)
  refine ⟨_, List.getElem?_eq_getElem hlt, ?_, ?_⟩
  · rw [hdst, Request.chunk_dst, hp.buffer, ← Request.chunk_src, hchunk]
  · rw [hcut, Request.chunk_len hp.len, hchunk]

end

/-! ### A write through a freed context -/

/-- Two receives under key 7, and the receive of what `twoChunks` sends under key 9. -/
def crowded : Fin 3 → Request
  | 2 => Wire.twoCopies 0
  | _ => ⟨.recv, 0, 0, 1, 7, 7⟩

theorem twoChunks_crowded : Wire.Paired Sys.twoChunks crowded 0 2 where
  len := rfl
  buffer := rfl
  key := rfl
  only _ _ := Subsingleton.elim _ _

/-- The second receive of key 7 has found the context of the first, whose wait then frees it; the receive of key 9 has
made its first task. -/
def crossed : List (Action (Fin 3) (Fin 1) × Found (Fin 3) (Fin 1)) :=
  Sys.quiet (.call 0 {} :: List.replicate 5 (.caller 0 {}) ++ .call 1 {} :: List.replicate 5 (.caller 1 {}) ++
    [.caller 0 {}, .caller 0 { ok := false }, .caller 0 {}, .wait 0] ++ List.replicate 8 (.waiter 0 {}) ++
    .call 2 {} :: List.replicate 2 (.caller 2 {}))

/-- That task has the memory of the context, and the second receive counts itself there. -/
def earlyRun : List (ChannelAct (Fin 1) (Fin 1) (Fin 3) (Fin 1)) :=
  crossed.map .receiver ++ .receiver (.caller 1 {}, { tenant := .task (.caller 2) 0 }) ::
    (Sys.quiet (List.replicate 7 (.caller 2 {}))).map .receiver ++
    (Sys.quiet (.call 0 {} :: List.replicate 7 (.caller 0 {}))).map .sender ++ .land 9 :: .notify 0 9 {} ::
    (Sys.quiet (List.replicate 3 (.poller 0 {}) ++ List.replicate 2 (.worker 0 {}))).map .receiver

def earlyEnd : Channel (Fin 1) (Fin 1) (Fin 3) (Fin 1) := last (step Sys.twoChunks crowded) start earlyRun (by decide +kernel)

/-- The receive of key 9 copies chunk 1 first, when only the notification of chunk 0 was handled. -/
theorem early_copied : exec (step Sys.twoChunks crowded) start earlyRun = some earlyEnd ∧
    Along (step Sys.twoChunks crowded) (Assumed Sys.twoChunks crowded 0 2) start earlyRun ∧
    Wire.Paired Sys.twoChunks crowded 0 2 ∧ Sys.OwnKey crowded 2 ∧ earlyEnd.notified = [(Sys.twoChunks 0).firstWr] ∧
    (earlyEnd.receiver.transfers 2).ops = [.copy 1 0x20200000 0x200000 1 true] :=
  ⟨exec_last _, by decide +kernel, twoChunks_crowded, by unfold Sys.OwnKey; decide, by decide +kernel, by decide +kernel⟩

/-- Both receives of the connection run, and no context is freed. -/
def calmRun : List (ChannelAct (Fin 1) (Fin 1) (Fin 3) (Fin 1)) :=
  (Sys.quiet (.call 0 {} :: List.replicate 7 (.caller 0 {}) ++ .call 2 {} :: List.replicate 10 (.caller 2 {}))).map .receiver ++
    (Sys.quiet (.call 0 {} :: List.replicate 7 (.caller 0 {}))).map .sender ++ .land 9 :: .notify 0 9 {} ::
    (Sys.quiet (List.replicate 3 (.poller 0 {}) ++ List.replicate 2 (.worker 1 {}))).map .receiver

def calmEnd : Channel (Fin 1) (Fin 1) (Fin 3) (Fin 1) := last (step Sys.twoChunks crowded) start calmRun (by decide +kernel)

theorem calmEnd_arrived : calmEnd.notified.filter (JfsWr.notifies (crowded 2).key) <+: (Sys.twoChunks 0).posted (0 : Fin 1) ∧
    (calmEnd.receiver.transfers 2).ops.filterMap issued? <+:
      List.range (calmEnd.notified.filter (JfsWr.notifies (crowded 2).key)).length ∧
    ∀ c dst src len ok, .copy c dst src len ok ∈ (calmEnd.receiver.transfers 2).ops →
      ∃ wr, (calmEnd.notified.filter (JfsWr.notifies (crowded 2).key))[c]? = some wr ∧ src = wr.dst ∧ len = wr.len :=
  copied_arrived rfl rfl twoChunks_crowded (by decide +kernel) (by decide +kernel) (exec_last _)
end Channel
end OsTransport
