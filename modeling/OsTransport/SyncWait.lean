import OsTransport.Lib.Run
import OsTransport.Lib.Holders
import OsTransport.Transport

/-!
# `wait_for_task_complete`

One thread in `wait_for_task_complete` against the calls of `mark_task_group_completed`, one a task, and
the abort of a caller whose post failed. A `SyncSys n` is a sync object of `n` tasks with what has been
recorded on it. One step is one section under `sync->mutex`, or the read of the counters after it; the
waiter may return from `pthread_cond_wait` without a signal.
-/

namespace OsTransport

/-- Where the waiting thread stands. -/
inductive SyncPc
  | idle
  /-- before it has the mutex and tests `request_completed` -/
  | testing
  /-- in `pthread_cond_wait`, signalled or not -/
  | asleep (signalled : Bool)
  /-- the mutex is released, `completed_tasks` is read next -/
  | reading
  | returned (ok : Bool)
deriving DecidableEq

/-- `pthread_cond_signal`. -/
def SyncPc.signal : SyncPc → SyncPc
  | .asleep _ => .asleep true
  | pc => pc

structure SyncSys (n : Nat) where
  sync : TaskSync
  waiter : SyncPc
  /-- what each task has recorded -/
  marks : Fin n → Option Bool
  aborted : Bool

inductive SyncAct (n : Nat)
  /-- `mark_task_group_completed` by task `i` -/
  | mark (i : Fin n) (success : Bool)
  /-- the post-failure branch of `os_transport_send` and `os_transport_recv` -/
  | abort
  | call
  | test
  | wake
  | read
deriving DecidableEq

namespace SyncSys
variable {n : Nat}

/-- `mark_task_group_completed` signals. -/
def signals (sync : TaskSync) (success : Bool) : Bool :=
  !success || sync.completedTasks + 1 == sync.totalTasks

def step (s : SyncSys n) : SyncAct n → Option (SyncSys n)
  | .mark i success =>
    if s.marks i = none then
      some { s with
        sync := s.sync.markTaskGroupCompleted success
        waiter := if signals s.sync success then s.waiter.signal else s.waiter
        marks := Function.update s.marks i (some success) }
    else none
  | .abort =>
    if s.aborted then none
    else some { s with
      sync := { s.sync with requestCompleted := true }, waiter := s.waiter.signal, aborted := true }
  | .call => if s.waiter = .idle then some { s with waiter := .testing } else none
  | .test =>
    if s.waiter = .testing then
      some { s with waiter := if s.sync.requestCompleted then .reading else .asleep false }
    else none
  | .wake =>
    match s.waiter with
    | .asleep _ => some { s with waiter := .testing }
    | _ => none
  | .read =>
    if s.waiter = .reading then
      some { s with waiter := .returned (s.sync.completedTasks == s.sync.totalTasks) }
    else none

/-- A sync object of `n` tasks after `init_task_sync`. -/
def start (n : Nat) : SyncSys n where
  sync := ⟨false, n, 0⟩
  waiter := .idle
  marks _ := none
  aborted := false

/-- Every task has recorded a success. -/
def AllSucceeded (s : SyncSys n) : Prop := ∀ i, s.marks i = some true

/-- A failure or an abort was recorded. -/
def Broken (s : SyncSys n) : Prop := (∃ i, s.marks i = some false) ∨ s.aborted = true

/-- What the sync object has counted is what the tasks have recorded. -/
structure Recorded (s : SyncSys n) : Prop where
  total : s.sync.totalTasks = n
  completed : s.sync.completedTasks = holders s.marks (some true)
  request : s.sync.requestCompleted = true ↔ s.Broken ∨ s.AllSucceeded

/-- What the waiter has seen, or will be told. -/
structure Told (s : SyncSys n) : Prop where
  asleep : s.waiter = .asleep false → s.sync.requestCompleted = false
  reading : s.waiter = .reading → s.sync.requestCompleted = true
  returned : ∀ ok, s.waiter = .returned ok → if ok then s.AllSucceeded else s.Broken

end SyncSys

open Lts
namespace SyncSys
variable {n : Nat} {s s' : SyncSys n} {a : SyncAct n}

theorem allSucceeded_iff : s.AllSucceeded ↔ holders s.marks (some true) = n := by
  have hcard := holders_eq_card s.marks (some true)
  rw [Fintype.card_fin] at hcard
  exact hcard.symm

theorem recorded_start (hn : 0 < n) : (start n).Recorded where
  total := rfl
  completed := ((holders_eq_zero (start n).marks (some true)).2 fun i hi => by cases hi).symm
  request := by
    constructor
    · intro h
      cases h
    · rintro ((⟨i, hi⟩ | ha) | hall)
      · cases hi
      · cases ha
      · cases hall ⟨0, hn⟩

theorem told_start : (start n).Told where
  asleep h := by cases h
  reading h := by cases h
  returned ok h := by cases h

/-- A mark is recorded once, and counted if it is a success. -/
theorem Recorded.mark (h : s.Recorded) {i : Fin n} {success : Bool} {w : SyncPc} (hi : s.marks i = none) :
    Recorded { s with
      sync := s.sync.markTaskGroupCompleted success
      waiter := w
      marks := Function.update s.marks i (some success) } := by
  have hcount := holders_update s.marks (some true) i (some success)
  have hall : ¬ s.AllSucceeded := fun hall => by rw [hall i] at hi; cases hi
  rw [hi, if_neg (by simp), Nat.add_zero, ← h.completed] at hcount
  cases success with
  | false =>
    refine ⟨h.total, ?_, ?_⟩
    · simpa [TaskSync.markTaskGroupCompleted] using hcount.symm
    · exact ⟨fun _ => .inl (.inl ⟨i, Function.update_self ..⟩), fun _ => rfl⟩
  | true =>
    rw [if_pos rfl] at hcount
    refine ⟨h.total, hcount.symm, ?_⟩
    -- the failures recorded are those of before
    have hbroken : Broken { s with
        sync := s.sync.markTaskGroupCompleted true
        waiter := w
        marks := Function.update s.marks i (some true) } ↔ s.Broken := by
      refine or_congr (exists_congr fun j => ?_) Iff.rfl
      rcases eq_or_ne j i with rfl | hj
      · simp [hi]
      · simp [Function.update_of_ne hj]
    rw [hbroken, allSucceeded_iff]
    simp only [hcount]
    have hreq := h.request
    rw [or_iff_left hall] at hreq
    simp only [TaskSync.markTaskGroupCompleted, if_true, Bool.or_eq_true, hreq, beq_iff_eq, h.total]

theorem Recorded.step (h : s.Recorded) (hs : s.step a = some s') : s'.Recorded := by
  have hsame : ∀ w, Recorded { s with waiter := w } := fun _ => ⟨h.total, h.completed, h.request⟩
  cases a with
  | mark i success =>
    simp only [SyncSys.step, Option.ite_none_right_eq_some, Option.some.injEq] at hs
    obtain ⟨hi, rfl⟩ := hs
    exact h.mark hi
  | abort =>
    simp only [SyncSys.step, Option.ite_none_left_eq_some, Option.some.injEq] at hs
    obtain ⟨-, rfl⟩ := hs
    exact ⟨h.total, h.completed, fun _ => .inl (.inr rfl), fun _ => rfl⟩
  | call =>
    simp only [SyncSys.step, Option.ite_none_right_eq_some, Option.some.injEq] at hs
    obtain ⟨-, rfl⟩ := hs
    exact hsame _
  | test =>
    simp only [SyncSys.step, Option.ite_none_right_eq_some, Option.some.injEq] at hs
    obtain ⟨-, rfl⟩ := hs
    exact hsame _
  | wake =>
    simp only [SyncSys.step] at hs
    split at hs
    · cases hs; exact hsame _
    · cases hs
  | read =>
    simp only [SyncSys.step, Option.ite_none_right_eq_some, Option.some.injEq] at hs
    obtain ⟨-, rfl⟩ := hs
    exact hsame _

theorem recorded_mono (hs : s.step a = some s') : (s.AllSucceeded → s'.AllSucceeded) ∧ (s.Broken → s'.Broken) ∧
    (s.sync.requestCompleted = true → s'.sync.requestCompleted = true) := by
  cases a with
  | mark i success =>
    simp only [SyncSys.step, Option.ite_none_right_eq_some, Option.some.injEq] at hs
    obtain ⟨hi, rfl⟩ := hs
    refine ⟨fun h => ?_, fun h => ?_, fun h => ?_⟩
    · rw [h i] at hi; cases hi
    · rcases h with ⟨j, hj⟩ | h
      · have hji : j ≠ i := fun e => by rw [e, hi] at hj; cases hj
        exact .inl ⟨j, (Function.update_of_ne hji ..).trans hj⟩
      · exact .inr h
    · cases success <;> simp [TaskSync.markTaskGroupCompleted, h]
  | abort =>
    simp only [SyncSys.step, Option.ite_none_left_eq_some, Option.some.injEq] at hs
    obtain ⟨-, rfl⟩ := hs
    exact ⟨id, fun _ => .inr rfl, fun _ => rfl⟩
  | wake =>
    simp only [SyncSys.step] at hs
    split at hs
    · cases hs; exact ⟨id, id, id⟩
    · cases hs
  | _ =>
    simp only [SyncSys.step, Option.ite_none_right_eq_some, Option.some.injEq] at hs
    obtain ⟨-, rfl⟩ := hs
    exact ⟨id, id, id⟩

theorem signal_ne (w : SyncPc) : w.signal ≠ .asleep false := by
  cases w <;> simp [SyncPc.signal]

theorem signal_eq {w : SyncPc} {pc : SyncPc} (hpc : ∀ b, pc ≠ .asleep b) (h : w.signal = pc) : w = pc := by
  cases w with
  | asleep b => exact absurd h.symm (hpc true)
  | _ => exact h

theorem Told.step (h : s.Told) (hr : s.Recorded) (hs : s.step a = some s') : s'.Told := by
  obtain ⟨hall, hbroken, hreq⟩ := recorded_mono hs
  have hreturned : ∀ ok, s.waiter = .returned ok → if ok then s'.AllSucceeded else s'.Broken := fun ok hw => by
    have := h.returned ok hw
    cases ok
    · exact hbroken this
    · exact hall this
  cases a with
  | mark i success =>
    simp only [SyncSys.step, Option.ite_none_right_eq_some, Option.some.injEq] at hs
    obtain ⟨hi, rfl⟩ := hs
    by_cases hsig : signals s.sync success = true
    · simp only [hsig, if_true] at hall hbroken hreq hreturned ⊢
      refine ⟨fun hw => absurd hw (signal_ne _), fun hw => ?_, fun ok hw => ?_⟩
      · exact hreq (h.reading (signal_eq (fun b => by simp) hw))
      · exact hreturned ok (signal_eq (fun b => by simp) hw)
    · simp only [hsig] at hall hbroken hreq hreturned ⊢
      refine ⟨fun hw => ?_, fun hw => hreq (h.reading hw), hreturned⟩
      -- no signal is needed, since nothing is completed yet
      cases success with
      | false => exact absurd rfl hsig
      | true =>
        have hne : (s.sync.completedTasks + 1 == s.sync.totalTasks) = false := by
          simpa [signals] using hsig
        simp only [TaskSync.markTaskGroupCompleted, if_true, h.asleep hw, hne, Bool.or_self]
  | abort =>
    simp only [SyncSys.step, Option.ite_none_left_eq_some, Option.some.injEq] at hs
    obtain ⟨-, rfl⟩ := hs
    exact ⟨fun hw => absurd hw (signal_ne _), fun _ => rfl,
      fun ok hw => hreturned ok (signal_eq (fun b => by simp) hw)⟩
  | call =>
    simp only [SyncSys.step, Option.ite_none_right_eq_some, Option.some.injEq] at hs
    obtain ⟨-, rfl⟩ := hs
    exact ⟨fun hw => (by cases hw), fun hw => (by cases hw), fun ok hw => by cases hw⟩
  | test =>
    simp only [SyncSys.step, Option.ite_none_right_eq_some, Option.some.injEq] at hs
    obtain ⟨-, rfl⟩ := hs
    cases hc : s.sync.requestCompleted <;> simp only [if_true, Bool.false_eq_true, if_false]
    case true => exact ⟨fun hw => (by cases hw), fun _ => hc, fun ok hw => by cases hw⟩
    case false => exact ⟨fun _ => hc, fun hw => (by cases hw), fun ok hw => by cases hw⟩
  | wake =>
    simp only [SyncSys.step] at hs
    split at hs
    · cases hs
      exact ⟨fun hw => (by cases hw), fun hw => (by cases hw), fun ok hw => by cases hw⟩
    · cases hs
  | read =>
    simp only [SyncSys.step, Option.ite_none_right_eq_some, Option.some.injEq] at hs
    obtain ⟨hw₀, rfl⟩ := hs
    refine ⟨fun hw => (by cases hw), fun hw => (by cases hw), fun ok hw => ?_⟩
    have hiff : s.AllSucceeded ↔ s.sync.completedTasks = s.sync.totalTasks := by
      rw [allSucceeded_iff, hr.completed, hr.total]
    obtain rfl : (s.sync.completedTasks == s.sync.totalTasks) = ok := SyncPc.returned.inj hw
    cases hc : s.sync.completedTasks == s.sync.totalTasks with
    | true => exact hiff.2 (beq_iff_eq.1 hc)
    | false =>
      -- the request was completed by something else than its last success
      exact (hr.request.1 (h.reading hw₀)).resolve_right fun hall =>
        absurd (hiff.1 hall) (beq_eq_false_iff_ne.1 hc)

/-- The waiter returns only when every task has succeeded or something has failed, its verdict is right,
and once either is recorded it does not sleep without a signal on its way. -/
theorem waiter_verdict (hn : 0 < n) {as : List (SyncAct n)} (h : exec SyncSys.step (start n) as = some s) :
    (∀ ok, s.waiter = .returned ok → s.AllSucceeded ∨ s.Broken) ∧
      (s.waiter = .returned true → s.AllSucceeded) ∧ (s.waiter = .returned false → s.Broken) ∧
      (s.AllSucceeded ∨ s.Broken → s.waiter ≠ .asleep false) := by
  obtain ⟨hr, ht⟩ : s.Recorded ∧ s.Told := exec_inv' (I := fun s => s.Recorded ∧ s.Told)
    (fun _ _ _ hi hs => ⟨hi.1.step hs, hi.2.step hi.1 hs⟩) ⟨recorded_start hn, told_start⟩ h
  refine ⟨fun ok hw => ?_, fun hw => ht.returned true hw, fun hw => ht.returned false hw, fun hrec hw => ?_⟩
  · have := ht.returned ok hw
    cases ok
    · exact .inr this
    · exact .inl this
  · have hreq := hr.request.2 hrec.symm
    rw [ht.asleep hw] at hreq
    cases hreq

/-- Two tasks of which the first succeeds while the waiter sleeps, and the second before it is awake. -/
def twoMarks : List (SyncAct 2) := [.call, .test, .mark 0 true, .wake, .test, .mark 1 true, .wake, .test, .read]

theorem twoMarks_succeed : (last SyncSys.step (start 2) twoMarks (by decide)).AllSucceeded :=
  (waiter_verdict (by decide) (exec_last _)).2.1 (by decide)

end SyncSys
end OsTransport
