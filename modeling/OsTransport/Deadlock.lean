import OsTransport.Locks

/-!
# When threads wait for each other

Callers hold the mutex of the section they are in and no other, and a worker its own mutex and at most one
more. So as long as the code that workers run does not lock the mutex of a worker, the mutexes are locked
in the order of `Mutex.rank`.
-/

namespace OsTransport
open Lts Locking

/-- A worker's own mutex comes first. -/
def Mutex.rank {σ : Type} : Mutex σ → Nat
  | .worker _ => 0
  | _ => 1

namespace LockSys
variable {σ α κ : Type} [DecidableEq σ] {s s' : LockSys σ α κ}

section
omit [DecidableEq σ]

theorem next_of_sync {x : Party} {y : σ} (hy : s.sync x = some y) : s.next x = some (.sync y) := by
  simp only [next, hy]

theorem next_of_call {x : Party} {k : Nat} (hy : s.sync x = none) (hk : s.call x = some k) :
    s.next x = (s.sys.threads (x, k)).mutex := by
  simp only [next, hy, hk]

theorem next_caller {n : Nat} (hy : s.sync (.caller n) = none) (hk : s.call (.caller n) = none) :
    s.next (.caller n) = none := by
  simp only [next, hy, hk]

theorem next_worker {i : Fin 64} (hy : s.sync (.worker i) = none) (hk : s.call (.worker i) = none) :
    s.next (.worker i) = (s.sys.pool.workers i).pc.mutex i := by
  simp only [next, hy, hk]

theorem next_congr {x : Party} (hs : s'.sync x = s.sync x) (hc : s'.call x = s.call x)
    (ht : ∀ k, s'.sys.threads (x, k) = s.sys.threads (x, k))
    (hw : ∀ i, x = .worker i → (s'.sys.pool.workers i).pc = (s.sys.pool.workers i).pc) : s'.next x = s.next x := by
  cases hy : s.sync x with
  | some y => rw [next_of_sync (hs.trans hy), next_of_sync hy]
  | none =>
    cases hk : s.call x with
    | some k => rw [next_of_call (hs.trans hy) (hc.trans hk), next_of_call hy hk, ht]
    | none =>
      cases x with
      | caller n => rw [next_caller (hs.trans hy) (hc.trans hk), next_caller hy hk]
      | worker i => rw [next_worker (hs.trans hy) (hc.trans hk), next_worker hy hk, hw i rfl]

/-- Where code of the user is running, the worker needs no mutex. -/
theorem mutex_of_code {i : Fin 64} {pc : WorkerPc (Party × Nat) α κ} (h : pc.code?.isSome = true) :
    pc.mutex (σ := σ) i = none := by
  cases pc with
  | func | complete | batch => rfl
  | _ => cases h

theorem next_of_atLarge {x : Party} (h : s.atLarge x = true) : s.next x = none := by
  unfold atLarge at h
  simp only [Bool.and_eq_true, Option.isNone_iff_eq_none] at h
  obtain ⟨⟨hk, hy⟩, hx⟩ := h
  cases x with
  | caller n => exact next_caller hy hk
  | worker i => exact (next_worker hy hk).trans (mutex_of_code hx)

end

/-- Who holds what. -/
structure Held (s : LockSys σ α κ) : Prop where
  apart : ∀ x, s.sync x = none ∨ s.call x = none
  inside : ∀ x, s.inside x = true → ∃ m, s.next x = some m
  holder : ∀ m x, s.holder m = some x → s.inside x = true ∧ s.next x = some m ∨
    ∃ i, x = .worker i ∧ m = .worker i ∧ (s.sys.pool.workers i).mutexFree = false

theorem unlock_inside_self (s : LockSys σ α κ) (h : Held s) (x : Party) : (s.unlock x).inside x = false := by
  unfold unlock
  split
  · simp
  · rename_i hn
    cases hi : s.inside x with
    | false => rfl
    | true =>
      obtain ⟨m, hm⟩ := h.inside x hi
      exact (hn m hi hm).elim

theorem unlock_inside_ne (s : LockSys σ α κ) {x y : Party} (hy : y ≠ x) : (s.unlock x).inside y = s.inside y := by
  unfold unlock
  split
  · exact Function.update_of_ne hy ..
  · rfl

theorem Held.unlock_holder (h : Held s) {x y : Party} {m : Mutex σ} (hm : (s.unlock x).holder m = some y) :
    (y ≠ x ∧ s.inside y = true ∧ s.next y = some m) ∨
      ∃ i, y = .worker i ∧ m = .worker i ∧ (s.sys.pool.workers i).mutexFree = false := by
  have hold : s.holder m = some y ∧ ¬(s.inside x = true ∧ s.next x = some m) := by
    unfold unlock at hm
    split at hm
    · rename_i n hi hn
      replace hm : Function.update s.holder n none m = some y := hm
      rw [Function.update_apply] at hm
      split at hm
      · cases hm
      · rename_i hne
        exact ⟨hm, fun hx => hne (Option.some.inj (hx.2.symm.trans hn))⟩
    · rename_i hno
      exact ⟨hm, fun hx => hno m hx.1 hx.2⟩
  rcases h.holder m y hold.1 with ⟨hi, hn⟩ | hown
  · refine .inl ⟨?_, hi, hn⟩
    rintro rfl
    exact hold.2 ⟨hi, hn⟩
  · exact .inr hown

theorem Held.of_unlock (h : Held s) (x : Party) (hx : s'.sync x = none ∨ s'.call x = none)
    (hh : s'.holder = (s.unlock x).holder) (hi : s'.inside = (s.unlock x).inside)
    (hn : ∀ y, y ≠ x → s'.sync y = s.sync y ∧ s'.call y = s.call y ∧ s'.next y = s.next y)
    (hf : ∀ i, (s'.sys.pool.workers i).mutexFree = (s.sys.pool.workers i).mutexFree) : Held s' := by
  constructor
  · intro y
    rcases eq_or_ne y x with rfl | hne
    · exact hx
    · rw [(hn y hne).1, (hn y hne).2.1]
      exact h.apart y
  · intro y hy
    rw [hi] at hy
    rcases eq_or_ne y x with rfl | hne
    · rw [unlock_inside_self s h] at hy
      cases hy
    · rw [unlock_inside_ne s hne] at hy
      rw [(hn y hne).2.2]
      exact h.inside y hy
  · intro m y hy
    rw [hh] at hy
    rcases h.unlock_holder hy with ⟨hne, hin, hnext⟩ | ⟨i, hx, hm, hfree⟩
    · exact .inl ⟨by rw [hi, unlock_inside_ne s hne]; exact hin, (hn y hne).2.2.trans hnext⟩
    · exact .inr ⟨i, hx, hm, (hf i).trans hfree⟩

theorem unlock_of_next_none {x : Party} (hn : s.next x = none) : s.unlock x = s := by
  unfold unlock
  split
  · rename_i m hi hm
    rw [hn] at hm
    cases hm
  · rfl

omit [DecidableEq σ] in
theorem atLarge_free {x : Party} (h : s.atLarge x = true) : s.call x = none ∧ s.sync x = none := by
  unfold atLarge at h
  simp only [Bool.and_eq_true, Option.isNone_iff_eq_none] at h
  exact h.1

theorem Held.step {a : LockAct σ α κ} (h : Held s) (hs : s.step a = some s') : Held s' := by
  cases step_cases hs with
  | call x k c o hx ht =>
    have hu := unlock_of_next_none (next_of_atLarge hx)
    refine h.of_unlock x ?_ (by rw [hu]) (by rw [hu]) (fun y hy => ?_) (fun _ => rfl)
    · exact .inl (atLarge_free hx).2
    · exact ⟨rfl, Function.update_of_ne hy ..,
        next_congr rfl (Function.update_of_ne hy ..)
          (fun j => (PoolSys.setThread_threads ..).trans (if_neg fun e => hy (congrArg Prod.fst e)))
          (fun _ _ => rfl)⟩
  | leave x k r hk ht =>
    have hsync : s.sync x = none := (h.apart x).resolve_right (by rw [hk]; simp)
    have hn : s.next x = none := by
      rw [next_of_call hsync hk, ht]; rfl
    have hu := unlock_of_next_none hn
    refine h.of_unlock x (.inl hsync) (by rw [hu]) (by rw [hu]) (fun y hy => ?_) (fun _ => rfl)
    exact ⟨rfl, Function.update_of_ne hy .., next_congr rfl (Function.update_of_ne hy ..) (fun _ => rfl) (fun _ _ => rfl)⟩
  | sync x y hx =>
    have hu := unlock_of_next_none (next_of_atLarge hx)
    refine h.of_unlock x (.inr (atLarge_free hx).1) (by rw [hu]) (by rw [hu]) (fun y hy => ?_) (fun _ => rfl)
    exact ⟨Function.update_of_ne hy .., rfl, next_congr (Function.update_of_ne hy ..) rfl (fun _ => rfl) (fun _ _ => rfl)⟩
  | lock x m hi hn hm =>
    refine ⟨h.apart, fun y hy => ?_, fun n y hy => ?_⟩
    · rcases eq_or_ne y x with rfl | hne
      · exact ⟨m, hn⟩
      · exact h.inside y ((Function.update_of_ne hne ..).symm.trans hy)
    · replace hy : Function.update s.holder m (some x) n = some y := hy
      rw [Function.update_apply] at hy
      split at hy
      · rename_i hnm
        obtain rfl := Option.some.inj hy
        exact .inl ⟨Function.update_self .., by rw [hnm]; exact hn⟩
      · rcases h.holder n y hy with ⟨hin, hnext⟩ | hown
        · refine .inl ⟨?_, hnext⟩
          show Function.update s.inside x true y = true
          rw [Function.update_apply]
          split
          · rfl
          · exact hin
        · exact .inr hown
  | synced x o y hy hi =>
    refine h.of_unlock x (.inl (Function.update_self ..)) rfl rfl (fun y hne => ?_) (fun i => by simp)
    have hsync : Function.update s.sync x none y = s.sync y := Function.update_of_ne hne ..
    refine ⟨hsync, by simp, next_congr hsync (by simp) (fun k => by simp) (fun i _ => by simp)⟩
  | thread x k o p pc hy hk hp =>
    have hpc : ∀ i, (p.workers i).pc = (s.sys.pool.workers i).pc := fun i => (Pool.threadStep_worker hp i).1
    refine h.of_unlock x (.inl (by simpa using hy)) rfl rfl (fun y hne => ?_) (fun i => ?_)
    · refine ⟨by simp, by simp, next_congr (by simp) (by simp) (fun j => ?_) fun i _ => hpc i⟩
      exact (PoolSys.setThread_threads ..).trans (if_neg fun e => hne (congrArg Prod.fst e))
    · show (p.workers i).mutexFree = _
      unfold WorkerThread.mutexFree
      rw [hpc i]
  | worker i o p hy hk hp =>
    have hnext : ∀ y, y ≠ .worker i → ((s.unlock (.worker i)).keep i { s.sys with pool := p }).next y = s.next y :=
      fun y hne => next_congr (by simp [keep]) (by simp [keep]) (fun _ => rfl) fun j hj => by
        rw [hj] at hne
        exact congrArg WorkerThread.pc (Pool.workers_of_ne hp fun e => hne (congrArg Party.worker e))
    refine ⟨fun y => by simpa [keep] using h.apart y, fun y hin => ?_, fun m y hm => ?_⟩
    · have hne : y ≠ .worker i := by
        rintro rfl
        exact absurd hin (by simp [keep, unlock_inside_self s h])
      rw [hnext y hne]
      exact h.inside y ((unlock_inside_ne s hne).symm.trans hin)
    · replace hm : Function.update (s.unlock (.worker i)).holder (.worker i)
        (if (p.workers i).mutexFree then none else some (.worker i)) m = some y := hm
      rw [Function.update_apply] at hm
      split at hm
      · rename_i hmi
        split at hm
        · cases hm
        · rename_i hbusy
          exact .inr ⟨i, (Option.some.inj hm).symm, hmi, Bool.eq_false_of_not_eq_true hbusy⟩
      · rename_i hmi
        rcases h.unlock_holder hm with ⟨hne, hin, hn⟩ | ⟨j, hy, hmj, hbusy⟩
        · exact .inl ⟨(unlock_inside_ne s hne).trans hin, (hnext y hne).trans hn⟩
        · have hji : j ≠ i := fun e => hmi (by rw [hmj, e])
          refine .inr ⟨j, hy, hmj, ?_⟩
          show (p.workers j).mutexFree = false
          rw [Pool.workers_of_ne hp hji]
          exact hbusy

omit [DecidableEq σ] in
theorem Held.start : Held (LockSys.start : LockSys σ α κ) := by
  refine ⟨fun _ => .inl rfl, fun x hx => ?_, fun m x hx => ?_⟩
  · cases hx
  · cases hx

end LockSys

/-- The call passes its argument checks, so it may come to lock the mutex of a worker. -/
def Call.locksWorker {α κ : Type} : Call α κ → Bool
  | .submitBatch b => b.validate.isSome
  | .submitTask .. | .wakeUp .. | .cancel .. => true

/-- Which calls the code that workers run may make. -/
abbrev Client (α κ : Type) := Code α κ → Call α κ → Prop

namespace LockSys
variable {σ α κ : Type} [DecidableEq σ] {s s' : LockSys σ α κ} {client : Client α κ}

/-- What a worker calls is in its client's code. -/
def Permits (client : Client α κ) (s : LockSys σ α κ) : LockAct σ α κ → Prop
  | .call (.worker i) _ c _ => ∃ code, (s.sys.pool.workers i).pc.code? = some code ∧ client code c
  | _ => True

/-- No call by a worker has come to a section. -/
structure Tame (s : LockSys σ α κ) : Prop where
  held : Held s
  done : ∀ i k, s.call (.worker i) = some k → ∃ r, s.sys.threads (.worker i, k) = .done r

omit [DecidableEq σ] in
theorem enter_done {p : Pool (Party × Nat) α κ} {o : Oracle} {c : Call α κ} (h : c.locksWorker = false) :
    ∃ r, PoolSys.enter p o c = .done r := by
  cases c with
  | submitBatch b =>
    simp only [Call.locksWorker, Option.isSome_eq_false_iff, Option.isNone_iff_eq_none] at h
    simp only [PoolSys.enter, h]
    split <;> exact ⟨.null, rfl⟩
  | _ => cases h

theorem Tame.step {a : LockAct σ α κ} (h : Tame s) (hc : ∀ code c, client code c → c.locksWorker = false)
    (ha : Permits client s a) (hs : s.step a = some s') : Tame s' := by
  refine ⟨h.held.step hs, fun i j hj => ?_⟩
  cases step_cases hs with
  | call x k c o hx ht =>
    replace hj : Function.update s.call x (some k) (.worker i) = some j := hj
    rcases eq_or_ne x (.worker i) with rfl | hne
    · rw [Function.update_self] at hj
      obtain rfl := Option.some.inj hj
      obtain ⟨code, -, hcode⟩ := ha
      obtain ⟨r, hr⟩ := enter_done (p := s.sys.pool) (o := o) (hc code c hcode)
      refine ⟨r, ?_⟩
      rw [PoolSys.setThread_threads, if_pos rfl, hr]
    · rw [Function.update_of_ne hne.symm] at hj
      obtain ⟨r, hr⟩ := h.done i j hj
      refine ⟨r, ?_⟩
      rw [PoolSys.setThread_threads, if_neg fun e => hne (congrArg Prod.fst e).symm, hr]
  | leave x k r hk ht =>
    refine h.done i j ?_
    replace hj : Function.update s.call x none (.worker i) = some j := hj
    rw [Function.update_apply] at hj
    split at hj
    · cases hj
    · exact hj
  | sync x y hx => exact h.done i j hj
  | lock x m hi hn hm => exact h.done i j hj
  | synced x o y hy hi =>
    have := h.done i j (by simpa using hj)
    simpa using this
  | thread x k o p pc hy hk hp =>
    obtain ⟨r, hr⟩ := h.done i j (by simpa using hj)
    have hne : (Party.worker i, j) ≠ (x, k) := fun e => by
      rw [← e, hr] at hp
      cases hp
    refine ⟨r, ?_⟩
    rw [PoolSys.setThread_threads, if_neg hne, hr]
  | worker w o p hy hk hp =>
    have := h.done i j (by simpa [keep] using hj)
    simpa [keep] using this

omit [DecidableEq σ] in
/-- A worker that holds its mutex comes to lock a mutex that no worker keeps. -/
theorem Tame.ordered (h : Tame s) : s.locks.Ordered Mutex.rank := by
  intro x m n hm hn
  replace hn : s.holder n = some x := hn
  simp only [locks] at hm
  split at hm
  · cases hm
  rename_i hin
  rcases h.held.holder n x hn with ⟨hyes, -⟩ | ⟨i, rfl, rfl, hbusy⟩
  · exact absurd hyes hin
  suffices hleaf : ∀ j, m ≠ .worker j by
    cases m with
    | worker j => exact absurd rfl (hleaf j)
    | _ => exact Nat.zero_lt_one
  intro j hmj
  subst hmj
  cases hy : s.sync (.worker i) with
  | some y =>
    rw [next_of_sync hy] at hm
    cases hm
  | none =>
    cases hk : s.call (.worker i) with
    | some k =>
      obtain ⟨r, hr⟩ := h.done i k hk
      rw [next_of_call hy hk, hr] at hm
      cases hm
    | none =>
      rw [next_worker hy hk] at hm
      cases hpc : (s.sys.pool.workers i).pc with
      | wait => simp [WorkerThread.mutexFree, hpc] at hbusy
      | _ => rw [hpc] at hm; cases hm

end LockSys
end OsTransport
