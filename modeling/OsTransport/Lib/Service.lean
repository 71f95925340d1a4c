import Mathlib

/-!
# A queue and its history

`Service A T C Q` relates the items `A` that have come to a queue, in order, to the ones that were served
(`T`), dropped (`C`) or still wait (`Q`): each item is in one of the three, and the served ones followed by
the waiting ones are in the order of arrival. A queue that serves its head and only drops all it has keeps
this.
-/

structure Service {β : Type*} (A T C Q : List β) : Prop where
  perm : A.Perm (T ++ C ++ Q)
  order : (T ++ Q).Sublist A

namespace Service
variable {β : Type*} {A T C Q : List β} {x : β}

theorem nil : Service ([] : List β) [] [] [] := ⟨.nil, .slnil⟩

theorem arrive (h : Service A T C Q) (l : List β) : Service (A ++ l) T C (Q ++ l) := by
  constructor
  · rw [← List.append_assoc]
    exact h.perm.append_right l
  · rw [← List.append_assoc]
    exact h.order.append (List.Sublist.refl l)

theorem serve (h : Service A T C (x :: Q)) : Service A (T ++ [x]) C Q := by
  constructor
  · refine h.perm.trans ?_
    rw [List.append_assoc, List.append_assoc, List.append_assoc, List.singleton_append]
    exact List.perm_middle.append_left T
  · rw [List.append_assoc, List.singleton_append]
    exact h.order

theorem drop (h : Service A T C Q) : Service A T (C ++ Q) [] := by
  constructor
  · rw [List.append_nil, ← List.append_assoc]
    exact h.perm
  · rw [List.append_nil]
    exact (List.sublist_append_left T Q).trans h.order

end Service

/-- Parts of the members, in the order of the members. -/
theorem List.Sublist.flatMap_of_forall {β γ : Type*} {f g : β → List γ} (l : List β) (h : ∀ x, (f x).Sublist (g x)) :
    (l.flatMap f).Sublist (l.flatMap g) := by
  induction l with
  | nil => exact .slnil
  | cons x l ih => exact (h x).append ih

/-- A list has no repetitions when none of its classes has. -/
theorem List.nodup_of_classes {β γ : Type*} [DecidableEq γ] (f : β → γ) {l : List β}
    (h : ∀ c, (l.filter fun x => f x == c).Nodup) : l.Nodup := by
  rw [List.nodup_iff_sublist]
  intro x hx
  have hclass := hx.filter fun y => f y == f x
  simp only [List.filter_cons, beq_self_eq_true, if_true, List.filter_nil] at hclass
  exact List.nodup_iff_sublist.1 (h (f x)) x hclass
