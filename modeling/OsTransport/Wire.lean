import OsTransport.Lib.Memory
import OsTransport.Posts

/-!
# Two handles over one connection

`Wire` is a sender's handle and a receiver's handle with what is between them: the writes URMA has taken whose
completion was not handled, the writes whose bytes have not arrived in the receiver's host memory, those whose
notification was not handled, and the copies CUDA has taken and not made yet.

URMA and CUDA are not verified but assumed to do what the transport relies on. A write that URMA has taken is carried
out once, and has one completion on the side of the sender and one notification, after its bytes have arrived, on the
side of the receiver. Writes with the same client key arrive, and are notified, in the order in which they were posted.
A copy that CUDA has taken is made once. The memory of the sender does not change. Anything else may happen in any order.
-/

namespace OsTransport

/-- The id that the notification of the write names. -/
def JfsWr.notifies (r : UInt32) (wr : JfsWr) : Bool := (UserData.ofUserCtx wr.notifyData).requestId == r

/-- The id that a completion with this `user_ctx` names. -/
def completes (r : UInt32) (userCtx : UInt64) : Bool := (UserData.ofUserCtx userCtx).requestId == r

namespace Sys
variable {ρ ψ : Type} [DecidableEq ρ] [DecidableEq ψ]

omit [DecidableEq ρ] [DecidableEq ψ] in
/-- The request whose operations the step may add to. -/
def concerns (s : Sys ρ ψ) : Action ρ ψ → Option ρ
  | .call q _ | .caller q _ => some q
  | .worker i _ =>
    match (s.pool.pool.workers i).pc with
    | .func task => some task.taskArg.userArg.sync
    | _ => none
  | _ => none

omit [DecidableEq ρ] [DecidableEq ψ] in
/-- The operations the step from `s` to `s'` has added. -/
def added (s s' : Sys ρ ψ) (act : Action ρ ψ) : List Op :=
  match s.concerns act with
  | some q => (s'.transfers q).ops.drop (s.transfers q).ops.length
  | none => []

open Progress
variable {args : ρ → Request} {s s' : Sys ρ ψ} {q : ρ} {act : Action ρ ψ}

theorem ops_of_not_concerned (hs : step args s act = some s') (hq : s.concerns act ≠ some q) :
    (s'.transfers q).ops = (s.transfers q).ops := by
  have hset : ∀ {q₀ : ρ} {x : Transfer}, s'.transfers = Function.update s.transfers q₀ x →
      (q = q₀ → x.ops = (s.transfers q₀).ops) → (s'.transfers q).ops = (s.transfers q).ops := by
    intro q₀ x he hx
    rw [he, Function.update_apply]
    split
    · rename_i e
      rw [e]
      exact hx e
    · rfl
  have hself : ∀ {q₀ : ρ}, s.concerns act = some q₀ → q ≠ q₀ := by
    rintro q₀ hc rfl
    exact hq hc
  cases step_cases hs with
  | reject q₀ o hc => exact hset rfl fun _ => rfl
  | single q₀ o hc => exact hset rfl fun e => absurd e (hself rfl)
  | register q₀ o p hc => exact hset rfl fun _ => rfl
  | registered q₀ o ids hc => exact hset rfl fun _ => rfl
  | refused q₀ o ret hc => exact hset rfl fun _ => rfl
  | firstPost q₀ o i hc => exact hset rfl fun e => absurd e (hself rfl)
  | recvPost q₀ o i pc hc => exact hset rfl fun _ => rfl
  | fail q₀ o hc => exact hset rfl fun _ => rfl
  | wait q₀ ok hc hw => exact hset rfl fun _ => rfl
  | wake q₀ o hw => exact hset rfl fun _ => rfl
  | success q₀ o hw => exact hset rfl fun _ => rfl
  | cancel q₀ o p hw => exact hset rfl fun _ => rfl
  | cancelled q₀ o ret hw => exact hset rfl fun _ => rfl
  | free q₀ o ok hw => exact hset rfl fun _ => rfl
  | stay i o task q₀ pc x hpc hq₀ hst =>
    refine hset rfl fun e => absurd e (hself ?_)
    rw [concerns, hpc]
    exact congrArg some hq₀
  | leave i o task q₀ x p hpc hq₀ hl hp =>
    refine hset rfl fun e => absurd e (hself ?_)
    rw [concerns, hpc]
    exact congrArg some hq₀
  | _ => rfl

theorem ops_eq (hl : Linked args s) (hs : step args s act = some s') (q : ρ) :
    (s'.transfers q).ops = (s.transfers q).ops ++ if s.concerns act = some q then s.added s' act else [] := by
  split
  · rename_i hq
    obtain ⟨l, hlist⟩ : (s.transfers q).ops <+: (s'.transfers q).ops := (move hl hs q).ops_isPrefix
    simp only [added, hq, ← hlist, List.drop_left]
  · rename_i hq
    rw [ops_of_not_concerned hs hq, List.append_nil]

omit [DecidableEq ρ] [DecidableEq ψ] in
theorem added_eq_nil (hq : s.concerns act = none) : s.added s' act = [] := by
  rw [added, hq]

end Sys

structure Wire (ρ ψ ρ' ψ' : Type) where
  sender : Sys ρ ψ
  receiver : Sys ρ' ψ'
  /-- `user_ctx` of the writes whose completion was not handled -/
  completions : List UInt64
  /-- the writes whose bytes have not arrived -/
  flying : List JfsWr
  /-- the writes that have arrived and were not notified -/
  landed : List JfsWr
  /-- the memory of the receiver's host -/
  host : Memory
  /-- the copies that were not made yet -/
  stream : List ChunkInfo
  /-- the memory of the receiver's device -/
  device : Memory
  /-- the completions that were handled -/
  completed : List UInt64
  /-- the writes whose notification was handled -/
  notified : List JfsWr

inductive WireAct (ρ ψ ρ' ψ' : Type)
  /-- a step of the sender's handle -/
  | sender (act : Action ρ ψ)
  /-- a step of the receiver's handle -/
  | receiver (act : Action ρ' ψ')
  /-- the `n`-th completion is handled -/
  | complete (k : ψ) (n : Nat) (o : Oracle)
  /-- the bytes of the first write for client key `r` arrive -/
  | land (r : UInt32)
  /-- its notification is handled -/
  | notify (k : ψ') (r : UInt32) (o : Oracle)
  /-- the `n`-th copy is made -/
  | copy (n : Nat)
deriving DecidableEq

namespace Wire
variable {ρ ψ ρ' ψ' : Type} [DecidableEq ρ] [DecidableEq ψ] [DecidableEq ρ'] [DecidableEq ψ']

/-- The sender's handle has made a step: URMA has the writes it posted. -/
def sent (w : Wire ρ ψ ρ' ψ') (s : Sys ρ ψ) (act : Action ρ ψ) : Wire ρ ψ ρ' ψ' :=
  let wrs := (w.sender.added s act).filterMap Op.written?
  { w with
    sender := s
    completions := w.completions ++ wrs.map fun wr => wr.userCtx
    flying := w.flying ++ wrs }

/-- The receiver's handle has made a step: CUDA has the copies it asked for. -/
def received (w : Wire ρ ψ ρ' ψ') (s : Sys ρ' ψ') (act : Action ρ' ψ') : Wire ρ ψ ρ' ψ' :=
  { w with receiver := s, stream := w.stream ++ (w.receiver.added s act).filterMap Op.copied? }

/-- `argsS` and `argsR` are the arguments of the requests, `source` is the sender's memory. -/
def step (argsS : ρ → Request) (argsR : ρ' → Request) (source : Memory) (w : Wire ρ ψ ρ' ψ') :
    WireAct ρ ψ ρ' ψ' → Option (Wire ρ ψ ρ' ψ')
  | .sender (.wakeUpTask ..) | .receiver (.wakeUpTask ..) => none
  | .sender act => (w.sender.step argsS act).map fun s => w.sent s act
  | .receiver act => (w.receiver.step argsR act).map fun s => w.received s act
  | .complete k n o =>
    match w.completions[n]? with
    | some userCtx =>
      (w.sender.step argsS (.wakeUpTask k ⟨.send, 0, userCtx⟩ o)).map fun s =>
        { w with sender := s, completions := w.completions.eraseIdx n, completed := w.completed ++ [userCtx] }
    | none => none
  | .land r =>
    (popFirst (JfsWr.notifies r) w.flying).map fun (wr, rest) =>
      { w with flying := rest, landed := w.landed ++ [wr], host := w.host.put wr.dst wr.len.toNat source wr.src }
  | .notify k r o =>
    match popFirst (JfsWr.notifies r) w.landed with
    | some (wr, rest) =>
      (w.receiver.step argsR (.wakeUpTask k ⟨.writeWithImm, wr.notifyData, 0⟩ o)).map fun s =>
        { w with receiver := s, landed := rest, notified := w.notified ++ [wr] }
    | none => none
  | .copy n =>
    match w.stream[n]? with
    | some c => some { w with stream := w.stream.eraseIdx n, device := w.device.put c.dst c.len.toNat w.host c.src }
    | none => none

/-- Two handles after `os_transport_init`, and the memory as it is then. -/
def start (host device : Memory) : Wire ρ ψ ρ' ψ' where
  sender := Sys.start
  receiver := Sys.start
  completions := []
  flying := []
  landed := []
  host := host
  stream := []
  device := device
  completed := []
  notified := []

/-! ### The cases of a step -/

/-- The step is not a call of `os_transport_wake_up_task`. -/
def isWakeUpTask {ρ ψ : Type} : Action ρ ψ → Bool
  | .wakeUpTask .. => true
  | _ => false

inductive Step (argsS : ρ → Request) (argsR : ρ' → Request) (source : Memory) (w : Wire ρ ψ ρ' ψ') :
    WireAct ρ ψ ρ' ψ' → Wire ρ ψ ρ' ψ' → Prop
  | sender (act : Action ρ ψ) (s : Sys ρ ψ) (hact : isWakeUpTask act = false)
      (hs : w.sender.step argsS act = some s) :
      Step argsS argsR source w (.sender act) (w.sent s act)
  | receiver (act : Action ρ' ψ') (s : Sys ρ' ψ') (hact : isWakeUpTask act = false)
      (hs : w.receiver.step argsR act = some s) :
      Step argsS argsR source w (.receiver act) (w.received s act)
  | complete (k : ψ) (n : Nat) (o : Oracle) (userCtx : UInt64) (s : Sys ρ ψ) (hn : w.completions[n]? = some userCtx)
      (hs : w.sender.step argsS (.wakeUpTask k ⟨.send, 0, userCtx⟩ o) = some s) :
      Step argsS argsR source w (.complete k n o)
        { w with sender := s, completions := w.completions.eraseIdx n, completed := w.completed ++ [userCtx] }
  | land (r : UInt32) (wr : JfsWr) (rest : List JfsWr) (hpop : popFirst (JfsWr.notifies r) w.flying = some (wr, rest)) :
      Step argsS argsR source w (.land r)
        { w with flying := rest, landed := w.landed ++ [wr], host := w.host.put wr.dst wr.len.toNat source wr.src }
  | notify (k : ψ') (r : UInt32) (o : Oracle) (wr : JfsWr) (rest : List JfsWr) (s : Sys ρ' ψ')
      (hpop : popFirst (JfsWr.notifies r) w.landed = some (wr, rest))
      (hs : w.receiver.step argsR (.wakeUpTask k ⟨.writeWithImm, wr.notifyData, 0⟩ o) = some s) :
      Step argsS argsR source w (.notify k r o) { w with receiver := s, landed := rest, notified := w.notified ++ [wr] }
  | copy (n : Nat) (c : ChunkInfo) (hn : w.stream[n]? = some c) :
      Step argsS argsR source w (.copy n)
        { w with stream := w.stream.eraseIdx n, device := w.device.put c.dst c.len.toNat w.host c.src }

variable {argsS : ρ → Request} {argsR : ρ' → Request} {source : Memory} {w w' : Wire ρ ψ ρ' ψ'}

theorem step_cases {act : WireAct ρ ψ ρ' ψ'} (h : w.step argsS argsR source act = some w') :
    Step argsS argsR source w act w' := by
  cases act with
  | sender act =>
    cases hact : isWakeUpTask act with
    | true => cases act <;> first | cases h | cases hact
    | false =>
      have h : (w.sender.step argsS act).map (fun s => w.sent s act) = some w' := by
        cases act <;> first | exact h | cases hact
      obtain ⟨s, hs, rfl⟩ := Option.map_eq_some_iff.1 h
      exact .sender act s hact hs
  | receiver act =>
    cases hact : isWakeUpTask act with
    | true => cases act <;> first | cases h | cases hact
    | false =>
      have h : (w.receiver.step argsR act).map (fun s => w.received s act) = some w' := by
        cases act <;> first | exact h | cases hact
      obtain ⟨s, hs, rfl⟩ := Option.map_eq_some_iff.1 h
      exact .receiver act s hact hs
  | complete k n o =>
    simp only [step] at h
    split at h
    · rename_i userCtx hn
      obtain ⟨s, hs, rfl⟩ := Option.map_eq_some_iff.1 h
      exact .complete k n o userCtx s hn hs
    · cases h
  | land r =>
    obtain ⟨⟨wr, rest⟩, hpop, rfl⟩ := Option.map_eq_some_iff.1 h
    exact .land r wr rest hpop
  | notify k r o =>
    simp only [step] at h
    split at h
    · rename_i wr rest hpop
      obtain ⟨s, hs, rfl⟩ := Option.map_eq_some_iff.1 h
      exact .notify k r o wr rest s hpop hs
    · cases h
  | copy n =>
    simp only [step] at h
    split at h
    · rename_i c hn
      cases h
      exact .copy n c hn
    · cases h

/-! ### The sender -/

open Lts Progress

/-- What holds of the sender's handle and the writes URMA has taken from it. -/
structure Sending (argsS : ρ → Request) (w : Wire ρ ψ ρ' ψ') : Prop where
  booked : ∀ q, Sys.Booked argsS q w.sender
  sent : ∀ q, Sent (argsS q) q (w.sender.transfers q)
  run : ∃ as, exec (Sys.step argsS) Sys.start as = some w.sender ∧
    ∀ r, as.countP (Sys.handles r) = w.completed.countP (completes r)
  balance : ∀ q, w.completed.countP (completes (argsS q).key) + w.completions.countP (completes (argsS q).key) =
    ((w.sender.transfers q).ops.filterMap Op.written?).length

omit [DecidableEq ρ'] [DecidableEq ψ'] in
theorem sending_start (argsS : ρ → Request) (host device : Memory) :
    Sending argsS (start host device : Wire ρ ψ ρ' ψ') where
  booked := Sys.booked_start
  sent _ := ⟨List.nil_prefix, fun h => absurd rfl h⟩
  run := ⟨[], rfl, fun _ => rfl⟩
  balance _ := rfl

section
variable {s : Sys ρ ψ} {act : Action ρ ψ}

theorem issues_le_of_run {completed : List UInt64} (h : ∃ as, exec (Sys.step argsS) Sys.start as = some s ∧
    ∀ r, as.countP (Sys.handles r) = completed.countP (completes r)) (q : ρ) :
    (issues (s.transfers q)).length ≤ completed.countP (completes (argsS q).key) := by
  obtain ⟨as, hexec, hcount⟩ := h
  rw [← hcount]
  exact Sys.issues_le_handled hexec q

theorem mem_added {s' : Sys ρ ψ} (hl : Sys.Linked argsS s) (hs : s.step argsS act = some s') {op : Op}
    (hop : op ∈ s.added s' act) : ∃ q, s.concerns act = some q ∧ op ∈ (s'.transfers q).ops := by
  cases hc : s.concerns act with
  | none =>
    rw [Sys.added_eq_nil hc] at hop
    cases hop
  | some q =>
    refine ⟨q, rfl, ?_⟩
    rw [Sys.ops_eq hl hs q, if_pos hc]
    exact List.mem_append_right _ hop

theorem filter_added {s' : Sys ρ ψ} (hl : Sys.Linked argsS s) (hs : s.step argsS act = some s') {q : ρ} {P : JfsWr → Bool}
    (hmine : ∀ wr ∈ (s'.transfers q).ops.filterMap Op.written?, P wr = true)
    (hother : ∀ q₀, q₀ ≠ q → ∀ wr ∈ (s'.transfers q₀).ops.filterMap Op.written?, P wr = false) :
    (s'.transfers q).ops.filterMap Op.written? =
      (s.transfers q).ops.filterMap Op.written? ++ ((s.added s' act).filterMap Op.written?).filter P := by
  have hmem : ∀ wr ∈ (s.added s' act).filterMap Op.written?, ∃ q₀, s.concerns act = some q₀ ∧
      wr ∈ (s'.transfers q₀).ops.filterMap Op.written? := by
    intro wr hwr
    obtain ⟨op, hop, hw⟩ := List.mem_filterMap.1 hwr
    obtain ⟨q₀, hc, hop⟩ := mem_added hl hs hop
    exact ⟨q₀, hc, List.mem_filterMap.2 ⟨op, hop, hw⟩⟩
  rw [Sys.ops_eq hl hs q, List.filterMap_append]
  congr 1
  split
  · rename_i hc
    refine (List.filter_eq_self.2 fun wr hwr => ?_).symm
    obtain ⟨q₀, hc₀, hwr⟩ := hmem wr hwr
    obtain rfl := Option.some.inj (hc.symm.trans hc₀)
    exact hmine wr hwr
  · rename_i hc
    refine (List.filter_eq_nil_iff.2 fun wr hwr => ?_).symm
    obtain ⟨q₀, hc₀, hwr⟩ := hmem wr hwr
    rw [hother q₀ (by rintro rfl; exact hc hc₀) wr hwr]
    exact Bool.false_ne_true

end

namespace Sending

omit [DecidableEq ρ'] [DecidableEq ψ'] in
theorem sender (h : Sending argsS w) (hsend : ∀ q, (argsS q).type = .send) (hown : ∀ q, Sys.OwnKey argsS q)
    {act : Action ρ ψ} {s : Sys ρ ψ} (hact : isWakeUpTask act = false)
    (ha : ∀ q, Sys.GetsContext argsS q w.sender act) (hs : w.sender.step argsS act = some s) : Sending argsS (w.sent s act) := by
  have hrun : ∃ as, exec (Sys.step argsS) Sys.start as = some s ∧
      ∀ r, as.countP (Sys.handles r) = w.completed.countP (completes r) := by
    obtain ⟨as, hexec, hcount⟩ := h.run
    refine ⟨as ++ [act], exec_snoc.2 ⟨w.sender, hexec, hs⟩, fun r => ?_⟩
    have hhandles : Sys.handles r act = false := by cases act <;> first | rfl | cases hact
    rw [List.countP_append, List.countP_singleton, hhandles, hcount]
    rfl
  have hbooked : ∀ q, Sys.Booked argsS q s := fun q => (h.booked q).step (hown q) (ha q) hs
  have hsent : ∀ q, Sent (argsS q) q (s.transfers q) := by
    intro q
    refine (h.booked q).sent_step (hbooked q) (hsend q) (h.sent q) hs ((issues_le_of_run hrun q).trans ?_)
    rw [← h.balance q]
    exact Nat.le_add_right _ _
  refine ⟨hbooked, hsent, hrun, fun q => ?_⟩
  change w.completed.countP _ + (w.completions ++ ((w.sender.added s act).filterMap Op.written?).map fun wr => wr.userCtx).countP _ =
    ((s.transfers q).ops.filterMap Op.written?).length
  rw [filter_added (P := fun wr => completes (argsS q).key wr.userCtx) (h.booked q).kept.linked hs (q := q), List.length_append,
    ← h.balance q, List.countP_append, List.countP_map, ← List.countP_eq_length_filter, Nat.add_assoc]
  · rfl
  · intro wr hwr
    exact beq_iff_eq.2 ((hsent q).headers (hsend q) hwr).1
  · intro q₀ hne wr hwr
    have hkey : (UserData.ofUserCtx wr.userCtx).requestId = (argsS q₀).key := ((hsent q₀).headers (hsend q₀) hwr).1
    rw [completes, hkey]
    exact beq_eq_false_iff_ne.2 fun hk => hne (hown q q₀ hk)

omit [DecidableEq ρ'] [DecidableEq ψ'] in
theorem complete (h : Sending argsS w) (hown : ∀ q, Sys.OwnKey argsS q)
    {k : ψ} {n : Nat} {o : Oracle} {userCtx : UInt64} {s : Sys ρ ψ} (hn : w.completions[n]? = some userCtx)
    (hs : w.sender.step argsS (.wakeUpTask k ⟨.send, 0, userCtx⟩ o) = some s) :
    Sending argsS { w with
      sender := s, completions := w.completions.eraseIdx n, completed := w.completed ++ [userCtx] } := by
  have hcount : ∀ r, w.completions.countP (completes r) =
      (w.completions.eraseIdx n).countP (completes r) + (completes r userCtx).toNat := by
    intro r
    obtain ⟨hlt, hget⟩ := List.getElem?_eq_some_iff.1 hn
    rw [← (List.getElem_cons_eraseIdx_perm hlt).countP_eq, List.countP_cons, hget]
    cases completes r userCtx <;> rfl
  have hrun : ∃ as, exec (Sys.step argsS) Sys.start as = some s ∧
      ∀ r, as.countP (Sys.handles r) = (w.completed ++ [userCtx]).countP (completes r) := by
    obtain ⟨as, hexec, hcount⟩ := h.run
    refine ⟨as ++ [.wakeUpTask k ⟨.send, 0, userCtx⟩ o], exec_snoc.2 ⟨w.sender, hexec, hs⟩, fun r => ?_⟩
    rw [List.countP_append, List.countP_append, hcount]
    rfl
  have hmem : ∀ q, Sys.GetsContext argsS q w.sender (.wakeUpTask k ⟨.send, 0, userCtx⟩ o) := fun _ => trivial
  have hbooked : ∀ q, Sys.Booked argsS q s := fun q => (h.booked q).step (hown q) (hmem q) hs
  have hops : ∀ q, (s.transfers q).ops = (w.sender.transfers q).ops := fun q =>
    Sys.ops_of_not_concerned hs (by simp [Sys.concerns])
  refine ⟨hbooked, fun q => (h.sent q).congr (hops q), hrun, fun q => ?_⟩
  rw [hops q, ← h.balance q, List.countP_append, List.countP_singleton, hcount]
  change _ + (w.completions.eraseIdx n).countP _ = _
  cases completes (argsS q).key userCtx
  · simp
  · simp
    omega

theorem step (h : Sending argsS w) (hsend : ∀ q, (argsS q).type = .send) (hown : ∀ q, Sys.OwnKey argsS q)
    {act : WireAct ρ ψ ρ' ψ'} (ha : ∀ a, act = .sender a → ∀ q, Sys.GetsContext argsS q w.sender a)
    (hs : w.step argsS argsR source act = some w') : Sending argsS w' := by
  cases step_cases hs with
  | sender a s hact hstep => exact h.sender hsend hown hact (ha a rfl) hstep
  | complete k n o userCtx s hn hstep => exact h.complete hown hn hstep
  | _ => exact ⟨h.booked, h.sent, h.run, h.balance⟩

end Sending

/-! ### The receiver -/

/-- What holds of the receiver's handle and the notifications it has handled. -/
structure Receiving (argsR : ρ' → Request) (w : Wire ρ ψ ρ' ψ') : Prop where
  booked : ∀ q, Sys.Booked argsR q w.receiver
  run : ∃ as, exec (Sys.step argsR) Sys.start as = some w.receiver ∧
    ∀ r, as.countP (Sys.handles r) = w.notified.countP (JfsWr.notifies r)

omit [DecidableEq ρ] [DecidableEq ψ] in
theorem receiving_start (argsR : ρ' → Request) (host device : Memory) :
    Receiving argsR (start host device : Wire ρ ψ ρ' ψ') where
  booked := Sys.booked_start
  run := ⟨[], rfl, fun _ => rfl⟩

theorem Receiving.step (h : Receiving argsR w) (hown : ∀ q, Sys.OwnKey argsR q) {act : WireAct ρ ψ ρ' ψ'}
    (ha : ∀ a, act = .receiver a → ∀ q, Sys.GetsContext argsR q w.receiver a)
    (hs : w.step argsS argsR source act = some w') : Receiving argsR w' := by
  obtain ⟨as, hexec, hcount⟩ := h.run
  cases step_cases hs with
  | receiver a s hact hstep =>
    refine ⟨fun q => (h.booked q).step (hown q) (ha a rfl q) hstep, as ++ [a], exec_snoc.2 ⟨_, hexec, hstep⟩, fun r => ?_⟩
    have hhandles : Sys.handles r a = false := by cases a <;> first | rfl | cases hact
    rw [List.countP_append, List.countP_singleton, hhandles, hcount]
    rfl
  | notify k r o wr rest s hpop hstep =>
    have hmem : ∀ q, Sys.GetsContext argsR q w.receiver (.wakeUpTask k ⟨.writeWithImm, wr.notifyData, 0⟩ o) :=
      fun _ => trivial
    refine ⟨fun q => (h.booked q).step (hown q) (hmem q) hstep,
      as ++ [.wakeUpTask k ⟨.writeWithImm, wr.notifyData, 0⟩ o], exec_snoc.2 ⟨_, hexec, hstep⟩, fun r => ?_⟩
    rw [List.countP_append, List.countP_append, hcount]
    rfl
  | _ => exact ⟨h.booked, h.run⟩

/-! ### A send and its receive -/

/-- The send `q` writes into the buffer that the receive `q'` copies from, under the client key of both. -/
structure Paired (argsS : ρ → Request) (argsR : ρ' → Request) (q : ρ) (q' : ρ') : Prop where
  len : (argsS q).len = (argsR q').len
  buffer : (argsS q).dst = (argsR q').src
  key : (argsS q).clientKey = (argsR q').key
  only : ∀ p, (argsS p).clientKey = (argsS q).clientKey → p = q

/-- The writes of the send on their way: notified, arrived, or in flight, in the order in which they were posted. -/
def InOrder (argsS : ρ → Request) (q : ρ) (w : Wire ρ ψ ρ' ψ') : Prop :=
  (w.notified ++ w.landed ++ w.flying).filter (JfsWr.notifies (argsS q).clientKey) =
    (w.sender.transfers q).ops.filterMap Op.written?

theorem filter_popFirst {r r' : UInt32} {l rest : List JfsWr} {wr : JfsWr}
    (h : popFirst (JfsWr.notifies r') l = some (wr, rest)) :
    l.filter (JfsWr.notifies r) = [wr].filter (JfsWr.notifies r) ++ rest.filter (JfsWr.notifies r) := by
  have hself : wr.notifies r' = true := popFirst_sat h
  have hsat : (UserData.ofUserCtx wr.notifyData).requestId = r' := beq_iff_eq.1 hself
  rcases eq_or_ne r' r with rfl | hne
  · rw [filter_popFirst_self h, List.filter_cons_of_pos hself]
    rfl
  · have hnot : wr.notifies r = false := beq_eq_false_iff_ne.2 (hsat ▸ hne)
    rw [filter_popFirst_of_not h hnot, List.filter_cons_of_neg (by rw [hnot]; exact Bool.false_ne_true)]
    rfl

theorem isPrefix_range {l : List Nat} {n m : Nat} (h : l <+: List.range n) (hlen : l.length ≤ m) : l <+: List.range m := by
  have htake : l = List.range (min l.length n) := by
    rw [← List.take_range]
    exact List.prefix_iff_eq_take.1 h
  have hmin : min (min l.length n) m = min l.length n := by omega
  rw [htake, ← hmin, ← List.take_range]
  exact List.take_prefix _ _

theorem inOrder_step {q : ρ} (h : InOrder argsS q w) (hw : Sending argsS w) (hw' : Sending argsS w')
    (hsend : ∀ q, (argsS q).type = .send) (honly : ∀ p, (argsS p).clientKey = (argsS q).clientKey → p = q)
    {act : WireAct ρ ψ ρ' ψ'} (hs : w.step argsS argsR source act = some w') : InOrder argsS q w' := by
  have hold : (w.notified ++ w.landed ++ w.flying).filter (JfsWr.notifies (argsS q).clientKey) =
    (w.sender.transfers q).ops.filterMap Op.written? := h
  cases step_cases hs with
  | sender a s hact hstep =>
    have hsent : ∀ q, Sent (argsS q) q (s.transfers q) := hw'.sent
    change (w.notified ++ w.landed ++ (w.flying ++ _)).filter _ = (s.transfers q).ops.filterMap Op.written?
    rw [filter_added (P := JfsWr.notifies (argsS q).clientKey) (hw.booked q).kept.linked hstep (q := q), ← List.append_assoc,
      List.filter_append, hold]
    · intro wr hwr
      exact beq_iff_eq.2 ((hsent q).headers (hsend q) hwr).2
    · intro q₀ hne wr hwr
      have hkey : (UserData.ofUserCtx wr.notifyData).requestId = (argsS q₀).clientKey := ((hsent q₀).headers (hsend q₀) hwr).2
      rw [JfsWr.notifies, hkey]
      exact beq_eq_false_iff_ne.2 fun hk => hne (honly q₀ hk)
  | complete k n o userCtx s hn hstep =>
    have hops : (s.transfers q).ops = (w.sender.transfers q).ops := Sys.ops_of_not_concerned hstep (by simp [Sys.concerns])
    change _ = (s.transfers q).ops.filterMap Op.written?
    rw [hops]
    exact hold
  | land r wr rest hpop =>
    refine Eq.trans ?_ hold
    simp only [List.filter_append, filter_popFirst hpop, List.append_assoc]
  | notify k r o wr rest s hpop hstep =>
    refine Eq.trans ?_ hold
    simp only [List.filter_append, filter_popFirst hpop, List.append_assoc]
  | _ => exact hold

omit [DecidableEq ρ] [DecidableEq ψ] in
/-- As many chunks are issued at most as notifications of the key were handled. -/
theorem Receiving.issues_le (h : Receiving argsR w) (q : ρ') :
    (issues (w.receiver.transfers q)).length ≤ (w.notified.filter (JfsWr.notifies (argsR q).key)).length := by
  obtain ⟨as, hexec, hcount⟩ := h.run
  have hle := Sys.issues_le_handled hexec q
  rwa [hcount, List.countP_eq_length_filter] at hle

omit [DecidableEq ρ'] [DecidableEq ψ'] in
theorem InOrder.notified_isPrefix {q : ρ} (h : InOrder argsS q w) (hw : Sending argsS w) :
    w.notified.filter (JfsWr.notifies (argsS q).clientKey) <+: (argsS q).posted q := by
  have horder : (w.notified ++ w.landed ++ w.flying).filter (JfsWr.notifies (argsS q).clientKey) = _ := h
  refine List.IsPrefix.trans ?_ (hw.sent q).written
  rw [← horder, List.append_assoc, List.filter_append]
  exact List.prefix_append _ _

/-! ### Runs -/

/-- The pools of both handles get memory for the contexts of their requests. -/
def Fed (argsS : ρ → Request) (argsR : ρ' → Request) (w : Wire ρ ψ ρ' ψ') : WireAct ρ ψ ρ' ψ' → Prop
  | .sender act => ∀ q, Sys.GetsContext argsS q w.sender act
  | .receiver act => ∀ q, Sys.GetsContext argsR q w.receiver act
  | _ => True

instance decidableFed [Fintype ρ] [Fintype ρ'] (w : Wire ρ ψ ρ' ψ') (act : WireAct ρ ψ ρ' ψ') :
    Decidable (Fed argsS argsR w act) :=
  match act with
  | .sender act => inferInstanceAs (Decidable (∀ q, Sys.GetsContext argsS q w.sender act))
  | .receiver act => inferInstanceAs (Decidable (∀ q, Sys.GetsContext argsR q w.receiver act))
  | .complete .. | .land _ | .notify .. | .copy _ => .isTrue trivial

/-- The requests over the connection: sends on one side, receives on the other, each with a key of its own. -/
structure Requests (argsS : ρ → Request) (argsR : ρ' → Request) : Prop where
  send : ∀ q, (argsS q).type = .send
  recv : ∀ q, (argsR q).type = .recv
  ownS : ∀ q, Sys.OwnKey argsS q
  ownR : ∀ q, Sys.OwnKey argsR q

section
variable {host device : Memory} {as : List (WireAct ρ ψ ρ' ψ')} (hreq : Requests argsS argsR)
  (ha : Along (step argsS argsR source) (Fed argsS argsR) (start host device) as)
  (h : exec (step argsS argsR source) (start host device) as = some w)
include hreq ha h

theorem sending : Sending argsS w :=
  exec_inv (I := Sending argsS)
    (fun _ _ _ hi ha hs => hi.step hreq.send hreq.ownS (fun a e => by subst e; exact ha) hs) (sending_start _ _ _) ha h

theorem receiving : Receiving argsR w :=
  exec_inv (I := Receiving argsR)
    (fun _ _ _ hi ha hs => hi.step hreq.ownR (fun a e => by subst e; exact ha) hs) (receiving_start _ _ _) ha h

theorem inOrder {q : ρ} (honly : ∀ p, (argsS p).clientKey = (argsS q).clientKey → p = q) : InOrder argsS q w := by
  have hinv := exec_inv (I := fun w : Wire ρ ψ ρ' ψ' => Sending argsS w ∧ InOrder argsS q w)
    (fun u act u' hi ha hs => by
      have hw' := hi.1.step hreq.send hreq.ownS (fun a e => by subst e; exact ha) hs
      exact ⟨hw', inOrder_step hi.2 hi.1 hw' hreq.send honly hs⟩) ⟨sending_start _ _ _, rfl⟩ ha h
  exact hinv.2

/-- A send is stop-and-wait: URMA takes its writes in the order of the chunks, a task posts no chunk before the
completions of all chunks before it were handled, and there is never more than one write of the send whose
completion was not handled. -/
theorem stop_and_wait (q : ρ) : (w.sender.transfers q).ops.filterMap Op.written? <+: (argsS q).posted q ∧
    (issues (w.sender.transfers q)).length ≤ w.completed.countP (completes (argsS q).key) ∧
    w.completions.countP (completes (argsS q).key) ≤ 1 := by
  have hw := sending hreq ha h
  have hissues := issues_le_of_run hw.run q
  refine ⟨(hw.sent q).written, hissues, ?_⟩
  have hsplit := written_split (w.sender.transfers q)
  have hle : ((issues (w.sender.transfers q)).filterMap Op.written?).length ≤ (issues (w.sender.transfers q)).length :=
    List.length_filterMap_le _ _
  have hfirsts : ((firsts (w.sender.transfers q)).filterMap Op.written?).length ≤ 1 := by
    refine (List.length_filterMap_le _ _).trans ?_
    rcases (hw.booked q).opening.once with hf | ⟨ok, hf⟩ <;> rw [hf] <;> simp
  have hbalance := hw.balance q
  omega

/-- The receiver copies a chunk only when the notification of its write was handled: the writes notified so far are
the first ones of the send, and the chunks copied so far are among theirs, in order. -/
theorem copied_notified {q : ρ} {q' : ρ'} (hp : Paired argsS argsR q q') :
    w.notified.filter (JfsWr.notifies (argsR q').key) <+: (argsS q).posted q ∧
      (w.receiver.transfers q').ops.filterMap issued? <+:
        List.range (w.notified.filter (JfsWr.notifies (argsR q').key)).length := by
  have hr := receiving hreq ha h
  refine ⟨hp.key ▸ (inOrder hreq ha h hp.only).notified_isPrefix (sending hreq ha h), ?_⟩
  · have hinitial := (hr.booked q').kept.linked.chunks_isPrefix (hr.booked q').kept.traced
    rw [Request.taskChunks, hreq.recv q'] at hinitial
    refine isPrefix_range hinitial ?_
    rw [← filterMap_issued?, length_issues]
    exact hr.issues_le q'

end

/-! ### A send of two chunks and its receive -/

/-- The receive of what `twoChunks` sends. -/
def twoCopies (_ : Fin 1) : Request := ⟨.recv, 0, 0x20000000, 2097153, 9, 9⟩

theorem twoChunks_requests : Requests Sys.twoChunks twoCopies where
  send _ := rfl
  recv _ := rfl
  ownS _ _ _ := Subsingleton.elim _ _
  ownR _ _ _ := Subsingleton.elim _ _

theorem twoChunks_paired : Paired Sys.twoChunks twoCopies 0 0 where
  len := rfl
  buffer := rfl
  key := rfl
  only _ _ := Subsingleton.elim _ _

/-- Both are called and waited for, and chunk 0 arrives. -/
def firstArrived : List (WireAct (Fin 1) (Fin 1) (Fin 1) (Fin 2)) :=
  .receiver (.call 0 {}) :: List.replicate 9 (.receiver (.caller 0 {})) ++
    .receiver (.wait 0) :: .sender (.call 0 {}) :: List.replicate 7 (.sender (.caller 0 {})) ++
    [.sender (.wait 0), .land 9]

/-- Its completion wakes the sender's worker, which posts chunk 1; its notification wakes the receiver's, which
copies it. -/
def firstCopied : List (WireAct (Fin 1) (Fin 1) (Fin 1) (Fin 2)) :=
  firstArrived ++ .complete 0 0 {} :: List.replicate 3 (.sender (.poller 0 {})) ++
    List.replicate 8 (.sender (.worker 0 {})) ++ .notify 0 9 {} :: List.replicate 3 (.receiver (.poller 0 {})) ++
    List.replicate 8 (.receiver (.worker 0 {}))

/-- The sender's memory. -/
def ramp : Memory := UInt64.toUInt8

abbrev firstCopiedEnd : Wire (Fin 1) (Fin 1) (Fin 1) (Fin 2) :=
  last (step Sys.twoChunks twoCopies ramp) (start (fun _ => 0) (fun _ => 0)) firstCopied (by decide +kernel)

theorem firstCopied_stop_and_wait :
    (firstCopiedEnd.sender.transfers 0).ops.filterMap Op.written? <+: (Sys.twoChunks 0).posted (0 : Fin 1) ∧
      (issues (firstCopiedEnd.sender.transfers 0)).length ≤ firstCopiedEnd.completed.countP (completes (Sys.twoChunks 0).key) ∧
      firstCopiedEnd.completions.countP (completes (Sys.twoChunks 0).key) ≤ 1 :=
  stop_and_wait twoChunks_requests (by decide +kernel) (exec_last _) 0

theorem firstCopied_notified :
    firstCopiedEnd.notified.filter (JfsWr.notifies (twoCopies 0).key) <+: (Sys.twoChunks 0).posted (0 : Fin 1) ∧
      (firstCopiedEnd.receiver.transfers 0).ops.filterMap issued? <+:
        List.range (firstCopiedEnd.notified.filter (JfsWr.notifies (twoCopies 0).key)).length :=
  copied_notified twoChunks_requests (by decide +kernel) (exec_last _) twoChunks_paired

end Wire
end OsTransport
