import Mathlib

/-!
# How many slots hold a value

`holders f b` counts the indices at which a finite family `f` of slots holds `b`. Overwriting one
slot changes the count by the value that is lost and the value that is written (`holders_update`).
`countP_update` is the same law for the members of a list without repetitions, and `List.sum_countP_le`
counts classes that do not meet.
-/

/-- A sum over a finite family after one of its members was replaced. -/
theorem sum_update {ι : Type*} [Fintype ι] [DecidableEq ι] (f : ι → Nat) (i : ι) (c : Nat) :
    ∑ j, Function.update f i c j + f i = ∑ j, f j + c := by
  have h (g : ι → Nat) : ∑ j, g j = g i + ∑ j ∈ Finset.univ.erase i, g j :=
    (Finset.add_sum_erase Finset.univ g (Finset.mem_univ i)).symm
  have hrest : ∑ j ∈ Finset.univ.erase i, Function.update f i c j = ∑ j ∈ Finset.univ.erase i, f j :=
    Finset.sum_congr rfl fun j hj => Function.update_of_ne (Finset.ne_of_mem_erase hj) ..
  rw [h f, h (Function.update f i c), hrest, Function.update_self]
  omega

section
variable {ι β : Type*} [Fintype ι] [DecidableEq ι] [DecidableEq β] (f : ι → β) (b : β)

/-- The number of slots of `f` that hold `b`. -/
def holders : Nat := ∑ i, if f i = b then 1 else 0

theorem holders_update (i : ι) (c : β) :
    holders (Function.update f i c) b + (if f i = b then 1 else 0) =
      holders f b + (if c = b then 1 else 0) := by
  have hcomp : (fun j => if Function.update f i c j = b then 1 else 0) =
      Function.update (fun j => if f j = b then 1 else 0) i (if c = b then 1 else 0) := by
    funext j
    exact Function.apply_update (fun _ x => if x = b then 1 else 0) f i c j
  unfold holders
  rw [hcomp]
  exact sum_update (fun j => if f j = b then 1 else 0) i _

omit [DecidableEq ι] in
theorem holders_eq_zero : holders f b = 0 ↔ ∀ i, f i ≠ b := by
  simp [holders]

omit [DecidableEq ι] in
theorem holders_le_one (h : ∀ i j, f i = b → f j = b → i = j) : holders f b ≤ 1 := by
  have hcard : (Finset.univ.filter fun i => f i = b).card = holders f b := Finset.card_filter _ _
  rw [← hcard, Finset.card_le_one]
  intro i hi j hj
  exact h i j (Finset.mem_filter.1 hi).2 (Finset.mem_filter.1 hj).2

omit [DecidableEq ι] in
/-- All slots hold the value as soon as the count is full. -/
theorem holders_eq_card : holders f b = Fintype.card ι ↔ ∀ i, f i = b := by
  have hsum : holders f b = (Finset.univ.filter fun i => f i = b).card :=
    (Finset.card_filter _ _).symm
  rw [hsum, ← Finset.card_univ, Finset.card_filter_eq_iff]
  simp

end

theorem countP_update {ι β : Type*} [DecidableEq ι] (f : ι → β) (P : β → Bool) {i : ι} {l : List ι}
    (hnd : l.Nodup) (hi : i ∈ l) (b : β) :
    l.countP (fun j => P (Function.update f i b j)) + (P (f i)).toNat =
      l.countP (fun j => P (f j)) + (P b).toNat := by
  induction l with
  | nil => simp at hi
  | cons j l ih =>
    obtain ⟨hj, hnd⟩ := List.nodup_cons.1 hnd
    rcases List.mem_cons.1 hi with rfl | hi
    · have : l.countP (fun j => P (Function.update f i b j)) = l.countP (fun j => P (f j)) :=
        List.countP_congr fun k hk => by
          rw [Function.update_of_ne (fun h : k = i => hj (h ▸ hk))]
      simp only [List.countP_cons, this, Function.update_self]
      cases P (f i) <;> cases P b <;> simp
    · have hne : j ≠ i := fun h => hj (h ▸ hi)
      simp only [List.countP_cons, Function.update_of_ne hne]
      have := ih hnd hi
      omega

/-- Classes that do not meet, counted one by one. -/
theorem List.sum_countP_le {α ι : Type*} {l : List α} {is : List ι} {P : ι → α → Bool} {Q : α → Bool}
    (hnd : is.Nodup) (hP : ∀ x ∈ l, ∀ i ∈ is, ∀ j ∈ is, P i x = true → P j x = true → i = j)
    (hQ : ∀ x ∈ l, ∀ i ∈ is, P i x = true → Q x = true) : (is.map fun i => l.countP (P i)).sum ≤ l.countP Q := by
  induction l with
  | nil => simp
  | cons x l ih =>
    have hrest := ih (fun y hy => hP y (List.mem_cons_of_mem _ hy)) fun y hy => hQ y (List.mem_cons_of_mem _ hy)
    -- `x` is in at most one class
    have hone : (is.map fun i => if P i x = true then 1 else 0).sum ≤ if Q x = true then 1 else 0 := by
      have hcount : (is.map fun i => if P i x = true then 1 else 0).sum = is.countP fun i => P i x := by
        clear hnd hP hQ ih hrest
        induction is with
        | nil => rfl
        | cons i is ih => rw [List.map_cons, List.sum_cons, ih, List.countP_cons, Nat.add_comm]
      rw [hcount]
      by_cases hnone : ∀ i ∈ is, ¬ P i x = true
      · rw [List.countP_eq_zero.2 hnone]
        exact Nat.zero_le _
      · push Not at hnone
        obtain ⟨i, hi, hix⟩ := hnone
        rw [if_pos (hQ x (List.mem_cons_self ..) i hi hix)]
        have hsub : is.filter (fun j => P j x) ⊆ [i] := by
          intro j hj
          obtain ⟨hj, hjx⟩ := List.mem_filter.1 hj
          rw [List.mem_singleton]
          exact hP x (List.mem_cons_self ..) j hj i hi hjx hix
        rw [List.countP_eq_length_filter]
        exact (List.Nodup.subperm (hnd.filter _) hsub).length_le
    simp only [List.countP_cons]
    rw [List.sum_map_add]
    omega
