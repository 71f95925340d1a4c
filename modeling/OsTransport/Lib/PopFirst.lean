import Mathlib

/-!
# Selective pop from a list

`popFirst p l` unlinks the first element of `l` that satisfies `p`. `popFirst_eq_some` says where
the element stood; what a pop does to the part of the list selected by another predicate `q` follows
from it (`filter_popFirst_of_not`, `filter_popFirst_of_imp`).
-/

variable {α : Type*} {p q : α → Bool} {l l' : List α} {x : α}

/-- The first element that satisfies `p`, and the list without it. -/
def popFirst (p : α → Bool) : List α → Option (α × List α)
  | [] => none
  | x :: l => if p x then some (x, l) else (popFirst p l).map fun y => (y.1, x :: y.2)

theorem popFirst_eq_none : popFirst p l = none ↔ l.filter p = [] := by
  induction l with
  | nil => simp [popFirst]
  | cons y l ih => by_cases hy : p y <;> simp [popFirst, hy, ih]

theorem popFirst_eq_some :
    popFirst p l = some (x, l') ↔
      ∃ a b, l = a ++ x :: b ∧ l' = a ++ b ∧ (∀ y ∈ a, p y = false) ∧ p x = true := by
  induction l generalizing l' with
  | nil => simp [popFirst]
  | cons y l ih =>
    by_cases hy : p y
    · simp only [popFirst, hy, ↓reduceIte, Option.some.injEq, Prod.mk.injEq]
      constructor
      · rintro ⟨rfl, rfl⟩
        exact ⟨[], l, rfl, rfl, by simp, hy⟩
      · rintro ⟨a, b, hl, rfl, ha, _⟩
        cases a with
        | nil => cases hl; exact ⟨rfl, rfl⟩
        | cons z a => cases hl; simp [hy] at ha
    · simp only [popFirst, hy, Bool.false_eq_true, ↓reduceIte, Option.map_eq_some_iff, Prod.mk.injEq,
        Prod.exists]
      constructor
      · rintro ⟨z, m, hz, rfl, rfl⟩
        obtain ⟨a, b, rfl, rfl, ha, hx⟩ := ih.1 hz
        exact ⟨y :: a, b, rfl, rfl, by simpa [hy] using ha, hx⟩
      · rintro ⟨a, b, hl, rfl, ha, hx⟩
        cases a with
        | nil => cases hl; simp [hy] at hx
        | cons z a =>
          cases hl
          exact ⟨x, a ++ b, ih.2 ⟨a, b, rfl, rfl, fun z hz => ha z (by simp [hz]), hx⟩, rfl, rfl⟩

/-- From a list that satisfies `p` throughout the head is popped. -/
theorem popFirst_of_all (hall : ∀ y ∈ l, p y = true) (h : popFirst p l = some (x, l')) : l = x :: l' := by
  cases l with
  | nil => cases h
  | cons y l =>
    rw [popFirst, if_pos (hall y (List.mem_cons_self ..))] at h
    cases h; rfl

theorem popFirst_sat (h : popFirst p l = some (x, l')) : p x = true := by
  obtain ⟨a, b, -, -, -, hx⟩ := popFirst_eq_some.1 h
  exact hx

theorem popFirst_length (h : popFirst p l = some (x, l')) : l.length = l'.length + 1 := by
  obtain ⟨a, b, rfl, rfl, -, -⟩ := popFirst_eq_some.1 h
  simp only [List.length_append, List.length_cons]; omega

theorem mem_popFirst (h : popFirst p l = some (x, l')) {y : α} : y ∈ l ↔ y = x ∨ y ∈ l' := by
  obtain ⟨a, b, rfl, rfl, -, -⟩ := popFirst_eq_some.1 h
  simp only [List.mem_append, List.mem_cons]; tauto

/-- A pop leaves what the popped element is not part of. -/
theorem filter_popFirst_of_not (h : popFirst p l = some (x, l')) (hq : q x = false) :
    l'.filter q = l.filter q := by
  obtain ⟨a, b, rfl, rfl, -, -⟩ := popFirst_eq_some.1 h
  simp [List.filter_append, hq]

/-- A pop takes the head of every part of the list that lies within `p` and has the element. -/
theorem filter_popFirst_of_imp (h : popFirst p l = some (x, l')) (hqp : ∀ y ∈ l, q y = true → p y = true)
    (hq : q x = true) : l.filter q = x :: l'.filter q := by
  obtain ⟨a, b, rfl, rfl, ha, -⟩ := popFirst_eq_some.1 h
  have hqa : a.filter q = [] := by
    refine List.filter_eq_nil_iff.2 fun y hy hqy => ?_
    have := hqp y (by simp [hy]) hqy
    rw [ha y hy] at this
    cases this
  simp [List.filter_append, hqa, hq]

theorem filter_popFirst_self (h : popFirst p l = some (x, l')) : l.filter p = x :: l'.filter p :=
  filter_popFirst_of_imp h (fun _ _ h => h) (popFirst_sat h)

theorem popFirst_map {β : Type*} (p : β → Bool) (f : α → β) (l : List α) :
    popFirst p (l.map f) = (popFirst (fun x => p (f x)) l).map fun y => (f y.1, y.2.map f) := by
  induction l with
  | nil => rfl
  | cons x l ih =>
    simp only [List.map_cons, popFirst]
    split
    · rfl
    · rw [ih, Option.map_map, Option.map_map]
      rfl
