import Mathlib

/-!
# Threads that wait for mutexes

`Locks` says which thread holds a mutex and which mutex a thread is about to lock. A cycle of threads each
waiting for a mutex of the next needs a thread that locks against the order: with a rank on the mutexes
that grows along every thread's nested locks (`Ordered`) there is none.
-/

namespace Locking

structure Locks (θ μ : Type*) where
  holder : μ → Option θ
  wants : θ → Option μ

namespace Locks
variable {θ μ ι : Type*} {l : Locks θ μ} {x y : θ} {m n : μ}

/-- `x` is about to lock a mutex that `y` holds. -/
def WaitsFor (l : Locks θ μ) (x y : θ) : Prop := ∃ m, l.wants x = some m ∧ l.holder m = some y

/-- A thread waits for itself, directly or through others. -/
def Deadlocked (l : Locks θ μ) : Prop := ∃ x, Relation.TransGen l.WaitsFor x x

/-- Whatever a thread waits for has a higher rank than all it holds. -/
def Ordered [Preorder ι] (l : Locks θ μ) (rank : μ → ι) : Prop :=
  ∀ x m n, l.wants x = some m → l.holder n = some x → rank n < rank m

theorem deadlocked_of_holds (hw : l.wants x = some m) (hh : l.holder m = some x) : l.Deadlocked :=
  ⟨x, .single ⟨m, hw, hh⟩⟩

section
variable [Preorder ι] {rank : μ → ι}

/-- The rank of what is waited for grows along a chain of waiting threads. -/
theorem Ordered.rank_lt (h : l.Ordered rank) (hxy : Relation.TransGen l.WaitsFor x y)
    (hm : l.wants x = some m) (hn : l.wants y = some n) : rank m < rank n := by
  induction hxy generalizing n with
  | single hw =>
    obtain ⟨k, hk, hhold⟩ := hw
    obtain rfl : m = k := Option.some.inj (hm.symm.trans hk)
    exact h _ _ _ hn hhold
  | tail _ hw ih =>
    obtain ⟨k, hk, hhold⟩ := hw
    exact (ih hk).trans (h _ _ _ hn hhold)

theorem Ordered.not_deadlocked (h : l.Ordered rank) : ¬l.Deadlocked := by
  rintro ⟨x, hx⟩
  obtain ⟨y, ⟨m, hm, -⟩, -⟩ := Relation.TransGen.head'_iff.1 hx
  exact lt_irrefl _ (h.rank_lt hx hm hm)

end
end Locks
end Locking
