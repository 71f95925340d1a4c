import Mathlib

/-!
# A list in a ring of cells

`Ring.Holds cells head l` says that the list `l` stands in `cells` from `head` on and wraps around at their end.
An element is added behind the last one (`Holds.push`), the first one is taken by moving `head`
(`Holds.first`, `Holds.rest`), and a list copied to the start of other cells stands there (`holds_flat`).
-/

namespace Ring
variable {β : Type*} {cells : List β} {head : Nat} {l : List β} {x : β}

structure Holds (cells : List β) (head : Nat) (l : List β) : Prop where
  head_lt : head < cells.length
  length_le : l.length ≤ cells.length
  cell : ∀ i < l.length, cells[(head + i) % cells.length]? = l[i]?

/-- Offsets within one turn name different cells. -/
theorem offset_inj {n i j : Nat} (hi : i < n) (hj : j < n) (h : (head + i) % n = (head + j) % n) : i = j :=
  Nat.ModEq.eq_of_lt_of_lt (Nat.ModEq.add_left_cancel' head h) hi hj

theorem Holds.push (h : Holds cells head l) (hlt : l.length < cells.length) :
    Holds (cells.set ((head + l.length) % cells.length) x) head (l ++ [x]) := by
  constructor
  · rw [List.length_set]
    exact h.head_lt
  · rw [List.length_set, List.length_append, List.length_singleton]
    omega
  · intro i hi
    rw [List.length_append, List.length_singleton] at hi
    rw [List.length_set]
    rcases Nat.lt_or_ge i l.length with hi' | hge
    · have hne : (head + l.length) % cells.length ≠ (head + i) % cells.length := by
        intro he
        have := offset_inj hlt (hi'.trans hlt) he
        omega
      rw [List.getElem?_set_ne hne, List.getElem?_append_left hi']
      exact h.cell i hi'
    · obtain rfl : i = l.length := by omega
      rw [List.getElem?_set_self (Nat.mod_lt _ (by omega)), List.getElem?_append_right le_rfl, Nat.sub_self]
      rfl

theorem Holds.first (h : Holds cells head (x :: l)) : cells[head]? = some x := by
  have hcell := h.cell 0 (Nat.succ_pos _)
  rwa [Nat.add_zero, Nat.mod_eq_of_lt h.head_lt] at hcell

theorem Holds.rest (h : Holds cells head (x :: l)) : Holds cells ((head + 1) % cells.length) l := by
  have hle := h.length_le
  rw [List.length_cons] at hle
  constructor
  · exact Nat.mod_lt _ (by omega)
  · omega
  · intro i hi
    rw [Nat.mod_add_mod, Nat.add_assoc, Nat.add_comm 1]
    exact h.cell (i + 1) (Nat.succ_lt_succ hi)

theorem holds_nil (hlt : head < cells.length) : Holds cells head [] :=
  ⟨hlt, Nat.zero_le _, fun i hi => absurd hi (Nat.not_lt_zero i)⟩

theorem holds_flat (hpos : 0 < cells.length) (hle : l.length ≤ cells.length)
    (h : ∀ i < l.length, cells[i]? = l[i]?) : Holds cells 0 l := by
  refine ⟨hpos, hle, fun i hi => ?_⟩
  rw [Nat.zero_add, Nat.mod_eq_of_lt (hi.trans_le hle)]
  exact h i hi

end Ring
