import Mathlib

/-!
# One batch in queues shared with others

A `Lane` is what can be seen of one batch in a family of queues: its items still queued and running at
each place, and those taken, returned and cancelled so far. `Step` is what places do to it: take the
oldest item of a key, finish the item that runs, cancel all items of a key. A batch whose items have
one key stays split (`Split`) into a taken prefix and a suffix that is queued in order at one place or
was cancelled in full, whatever steps are taken (`Split.step`).
-/

structure Lane (ι β ρ : Type*) where
  attached : List (ι × List β)
  queued : ι → List β
  running : ι → List β
  taken : List (ι × β)
  returned : List β
  cancelled : List (ι × ρ × List β)

namespace Lane
variable {ι β ρ : Type*} [DecidableEq ι] {key : β → ρ}

/-- Nothing of the batch has been queued yet. -/
structure Unused (l : Lane ι β ρ) : Prop where
  attached : l.attached = []
  queued : ∀ i, l.queued i = []
  running : ∀ i, l.running i = []
  taken : l.taken = []
  returned : l.returned = []

/-- The items are appended at place `i`. -/
def attach (l : Lane ι β ρ) (i : ι) (items : List β) : Lane ι β ρ :=
  { l with
    attached := l.attached ++ [(i, items)]
    queued := Function.update l.queued i (l.queued i ++ items) }

/-- What the places do. -/
inductive Step [DecidableEq ρ] (key : β → ρ) (l : Lane ι β ρ) : Lane ι β ρ → Prop
  /-- to other batches -/
  | refl : Step key l l
  | take (i : ι) (x : β) (a b : List β) (hq : l.queued i = a ++ x :: b)
      (ha : ∀ y ∈ a, key y ≠ key x) (hr : l.running i = []) :
      Step key l { l with
        queued := Function.update l.queued i (a ++ b)
        running := Function.update l.running i [x]
        taken := l.taken ++ [(i, x)] }
  | finish (i : ι) (x : β) (hr : l.running i = [x]) :
      Step key l { l with
        running := Function.update l.running i []
        returned := l.returned ++ [x] }
  | cancel (i : ι) (r : ρ) :
      Step key l { l with
        queued := Function.update l.queued i ((l.queued i).filter fun x => !decide (key x = r))
        cancelled := l.cancelled ++ [(i, r, (l.queued i).filter fun x => decide (key x = r))] }

theorem Step.of_eq [DecidableEq ρ] {l l' : Lane ι β ρ} (h : l' = l) : Step key l l' := h ▸ .refl

theorem Step.attached_eq [DecidableEq ρ] {l l' : Lane ι β ρ} (h : Step key l l') : l'.attached = l.attached := by
  cases h <;> rfl

theorem Step.queued_nil [DecidableEq ρ] {l l' : Lane ι β ρ} (h : Step key l l') (hq : ∀ i, l.queued i = []) (i : ι) :
    l'.queued i = [] := by
  cases h with
  | refl => exact hq i
  | take j x a b hj => simp [hq j] at hj
  | finish j x hr => exact hq i
  | cancel j r =>
    change Function.update l.queued j _ i = []
    rcases eq_or_ne i j with rfl | hi
    · rw [Function.update_self, hq i]
      rfl
    · rw [Function.update_of_ne hi]
      exact hq i

theorem Step.running_nil [DecidableEq ρ] {l l' : Lane ι β ρ} (h : Step key l l') (hq : ∀ i, l.queued i = [])
    (hr : ∀ i, l.running i = []) (i : ι) : l'.running i = [] := by
  cases h with
  | take j x a b hj => simp [hq j] at hj
  | finish j x hj => simp [hr j] at hj
  | _ => exact hr i

/-- The items of place `w` fall into a prefix taken there in order, its last item perhaps still
running, and a suffix that is queued there in order or was removed by one cancel. -/
structure Split (key : β → ρ) (l : Lane ι β ρ) (w : ι) (items pre suf : List β) : Prop where
  attached : l.attached = [(w, items)]
  append : items = pre ++ suf
  taken : l.taken = pre.map (Prod.mk w)
  executed : l.returned ++ l.running w = pre
  running : (l.running w).length ≤ 1
  elsewhere : ∀ i, i ≠ w → l.queued i = [] ∧ l.running i = []
  rest : l.queued w = suf ∨
    l.queued w = [] ∧ ∃ r, (∀ x ∈ suf, key x = r) ∧ (w, r, suf) ∈ l.cancelled

theorem Unused.step [DecidableEq ρ] {l l' : Lane ι β ρ} (h : l.Unused) (hs : Step key l l') : l'.Unused := by
  cases hs with
  | refl => exact h
  | take i x a b hq ha hr => simp [h.queued] at hq
  | finish i x hr => simp [h.running] at hr
  | cancel i r => exact ⟨h.attached, (Step.cancel i r).queued_nil h.queued, h.running, h.taken, h.returned⟩

theorem Unused.attach {l : Lane ι β ρ} (h : l.Unused) (i : ι) (items : List β) :
    Split key (l.attach i items) i items [] items where
  attached := by simp [Lane.attach, h.attached]
  append := rfl
  taken := h.taken
  executed := by simp [Lane.attach, h.returned, h.running]
  running := by simp [Lane.attach, h.running]
  elsewhere j hj := ⟨by simp [Lane.attach, Function.update_of_ne hj, h.queued], h.running j⟩
  rest := .inl (by simp [Lane.attach, h.queued])

section
variable {l l' : Lane ι β ρ} {w : ι} {items pre suf : List β}

/-- The item taken is the first of the suffix, since no item of another key stands before it. -/
theorem Split.take (h : Split key l w items pre suf) (hkey : ∀ x ∈ items, ∀ y ∈ items, key x = key y)
    {i : ι} {x : β} {a b : List β} (hq : l.queued i = a ++ x :: b) (ha : ∀ y ∈ a, key y ≠ key x)
    (hr : l.running i = []) :
    Split key { l with
      queued := Function.update l.queued i (a ++ b)
      running := Function.update l.running i [x]
      taken := l.taken ++ [(i, x)] } w items (pre ++ [x]) b := by
  obtain rfl : i = w := by
    by_contra hi
    simp [(h.elsewhere i hi).1] at hq
  have hsuf : suf = a ++ x :: b := by
    rcases h.rest with hs | ⟨hs, -⟩
    · rw [← hs, hq]
    · simp [hs] at hq
  have hmem : ∀ y ∈ a ++ x :: b, y ∈ items := fun y hy => by
    rw [h.append, hsuf]; exact List.mem_append_right _ hy
  obtain rfl : a = [] := by
    cases a with
    | nil => rfl
    | cons y a => exact absurd (hkey y (hmem y (by simp)) x (hmem x (by simp))) (ha y (by simp))
  have hex := h.executed
  rw [hr, List.append_nil] at hex
  refine ⟨h.attached, ?_, ?_, ?_, ?_, fun j hj => ?_, .inl ?_⟩
  · rw [h.append, hsuf]; simp
  · show l.taken ++ [(i, x)] = _
    rw [h.taken, List.map_append]; rfl
  · simp [hex]
  · simp
  · show Function.update l.queued i _ j = [] ∧ Function.update l.running i _ j = []
    rw [Function.update_of_ne hj, Function.update_of_ne hj]
    exact h.elsewhere j hj
  · simp

theorem Split.step [DecidableEq ρ] (h : Split key l w items pre suf) (hkey : ∀ x ∈ items, ∀ y ∈ items, key x = key y)
    (hs : Step key l l') : ∃ pre suf, Split key l' w items pre suf := by
  cases hs with
  | refl => exact ⟨pre, suf, h⟩
  | take i x a b hq ha hr => exact ⟨pre ++ [x], b, h.take hkey hq ha hr⟩
  | finish i x hr =>
    obtain rfl : i = w := by
      by_contra hi
      simp [(h.elsewhere i hi).2] at hr
    refine ⟨pre, suf, h.attached, h.append, h.taken, ?_, ?_, fun j hj => ?_, h.rest⟩
    · have := h.executed
      simpa [hr] using this
    · simp
    · show l.queued j = [] ∧ Function.update l.running i [] j = []
      rw [Function.update_of_ne hj]
      exact h.elsewhere j hj
  | cancel i r =>
    refine ⟨pre, suf, h.attached, h.append, h.taken, h.executed, h.running, fun j hj => ?_, ?_⟩
    · refine ⟨?_, (h.elsewhere j hj).2⟩
      rcases eq_or_ne j i with rfl | hji
      · simp [(h.elsewhere j hj).1]
      · simp [Function.update_of_ne hji, (h.elsewhere j hj).1]
    by_cases hi : i = w
    · subst hi
      rcases h.rest with hs | ⟨hs, r', hr', hmem⟩
      · by_cases hr : ∀ x ∈ suf, key x = r
        · refine .inr ⟨?_, r, hr, List.mem_append_right _ ?_⟩
          · simpa [hs] using hr
          · have : suf.filter (fun x => decide (key x = r)) = suf :=
              List.filter_eq_self.2 fun x hx => by simpa using hr x hx
            simp [hs, this]
        · -- one item of another key, so none has the key cancelled
          obtain ⟨x, hx, hne⟩ : ∃ x ∈ suf, key x ≠ r := by simpa using hr
          refine .inl ?_
          simp only [Function.update_self, hs]
          refine List.filter_eq_self.2 fun y hy => ?_
          have : key y = key x := hkey y (by simp [h.append, hy]) x (by simp [h.append, hx])
          simpa [this] using hne
      · exact .inr ⟨by simp [hs], r', hr', List.mem_append_left _ hmem⟩
    · simp only [Function.update_of_ne (Ne.symm hi)]
      rcases h.rest with hs | ⟨hs, r', hr', hmem⟩
      · exact .inl hs
      · exact .inr ⟨hs, r', hr', List.mem_append_left _ hmem⟩

end
end Lane
