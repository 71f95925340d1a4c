import Mathlib

/-!
# Runs of a partial step function

A system is a function `step : σ → α → Option σ`: `step s a = none` when the action `a` is blocked
in `s`. `exec` takes a list of actions one after another, `Along C` says that every action of the
list meets `C` at the state it is taken in. Every invariant of a system is derived from what one
step preserves, by `exec_inv`; `exec_inv_tally`, `exec_inv_trace` and `exec_inv_acts` do the same for an invariant that also
counts how often a run takes a given kind of step, or lists what its steps did, or the actions themselves.
-/

namespace Lts

variable {σ σ' α α' : Type*}

/-- Takes the actions one after another; `none` when one of them is blocked. -/
def exec (step : σ → α → Option σ) : σ → List α → Option σ
  | s, [] => some s
  | s, a :: as => (step s a).bind fun s' => exec step s' as

/-- `C` holds of every action at the state it is taken in. -/
def Along (step : σ → α → Option σ) (C : σ → α → Prop) : σ → List α → Prop
  | _, [] => True
  | s, a :: as => C s a ∧ ∀ s', step s a = some s' → Along step C s' as

variable {step : σ → α → Option σ} {C D : σ → α → Prop} {s s' t : σ} {a : α} {as bs : List α}

@[simp] theorem exec_nil : exec step s [] = some s := rfl

theorem exec_cons : exec step s (a :: as) = some t ↔ ∃ u, step s a = some u ∧ exec step u as = some t := by
  simp [exec, Option.bind_eq_some_iff]

theorem exec_append :
    exec step s (as ++ bs) = some t ↔ ∃ u, exec step s as = some u ∧ exec step u bs = some t := by
  induction as generalizing s with
  | nil => simp
  | cons a as ih =>
    simp only [List.cons_append, exec_cons, ih]
    constructor
    · rintro ⟨u, hu, v, hv, ht⟩
      exact ⟨v, ⟨u, hu, hv⟩, ht⟩
    · rintro ⟨v, ⟨u, hu, hv⟩, ht⟩
      exact ⟨u, hu, v, hv, ht⟩

theorem exec_snoc :
    exec step s (as ++ [a]) = some t ↔ ∃ u, exec step s as = some u ∧ step u a = some t := by
  simp [exec_append, exec_cons]

/-- The last state of a run none of whose actions is blocked. -/
def last (step : σ → α → Option σ) (s : σ) (as : List α) (h : (exec step s as).isSome = true) : σ :=
  (exec step s as).get h

theorem exec_last (h : (exec step s as).isSome = true) : exec step s as = some (last step s as h) :=
  (Option.some_get h).symm

instance decidableAlong [∀ s a, Decidable (C s a)] : (s : σ) → (as : List α) → Decidable (Along step C s as)
  | _, [] => isTrue trivial
  | s, a :: as =>
    match hs : step s a with
    | none => decidable_of_iff (C s a) ⟨fun h => ⟨h, fun _ hs' => by rw [hs] at hs'; cases hs'⟩, And.left⟩
    | some u =>
      have := decidableAlong u as
      decidable_of_iff (C s a ∧ Along step C u as)
        ⟨fun h => ⟨h.1, fun _ hs' => by cases hs.symm.trans hs'; exact h.2⟩, fun h => ⟨h.1, h.2 u hs⟩⟩

namespace Along

theorem mono (h : ∀ s a, C s a → D s a) (hC : Along step C s as) : Along step D s as := by
  induction as generalizing s with
  | nil => trivial
  | cons a as ih => exact ⟨h s a hC.1, fun s' hs => ih (hC.2 s' hs)⟩

theorem and (hC : Along step C s as) (hD : Along step D s as) :
    Along step (fun s a => C s a ∧ D s a) s as := by
  induction as generalizing s with
  | nil => trivial
  | cons a as ih => exact ⟨⟨hC.1, hD.1⟩, fun s' hs => ih (hC.2 s' hs) (hD.2 s' hs)⟩

/-- A condition on actions alone holds along a run as soon as it holds of each action. -/
theorem of_forall {P : α → Prop} (h : ∀ a ∈ as, P a) : Along step (fun _ a => P a) s as := by
  induction as generalizing s with
  | nil => trivial
  | cons a as ih =>
    exact ⟨h a (List.mem_cons_self ..), fun _ _ => ih fun b hb => h b (List.mem_cons_of_mem _ hb)⟩

theorem trans (h : Along step C s as) (he : exec step s as = some t) (h' : Along step C t bs) :
    Along step C s (as ++ bs) := by
  induction as generalizing s with
  | nil => cases he; exact h'
  | cons b as ih =>
    obtain ⟨u, hu, he⟩ := exec_cons.1 he
    refine ⟨h.1, fun v hv => ?_⟩
    cases hu.symm.trans hv
    exact ih (h.2 u hu) he

theorem snoc (h : Along step C s as) (he : exec step s as = some t) (ha : C t a) :
    Along step C s (as ++ [a]) :=
  h.trans he ⟨ha, fun _ _ => trivial⟩

end Along

/-- What every step preserves, a run preserves. -/
theorem exec_inv {I : σ → Prop} (hI : ∀ s a s', I s → C s a → step s a = some s' → I s')
    (h₀ : I s) (hC : Along step C s as) (he : exec step s as = some t) : I t := by
  induction as generalizing s with
  | nil => cases he; exact h₀
  | cons a as ih =>
    obtain ⟨u, hu, he⟩ := exec_cons.1 he
    exact ih (hI s a u h₀ hC.1 hu) (hC.2 u hu) he

/-- `exec_inv` for steps without a side condition. -/
theorem exec_inv' {I : σ → Prop} (hI : ∀ s a s', I s → step s a = some s' → I s')
    (h₀ : I s) (he : exec step s as = some t) : I t :=
  exec_inv (C := fun _ _ => True) (fun s a s' h _ => hI s a s' h) h₀
    (Along.of_forall fun _ _ => trivial) he

/-- The invariant holds in every state of the run, so a condition it implies holds along it. -/
theorem Along.of_inv {I : σ → Prop} (hI : ∀ s a s', I s → C s a → step s a = some s' → I s')
    (hD : ∀ s a, I s → C s a → D s a) (h₀ : I s) (hC : Along step C s as) : Along step D s as := by
  induction as generalizing s with
  | nil => trivial
  | cons a as ih => exact ⟨hD s a h₀ hC.1, fun u hu => ih (hI s a u h₀ hC.1 hu) (hC.2 u hu)⟩

section
variable {step' : σ → α' → Option σ} {C' : σ → α' → Prop} {f : α' → α} {as : List α'}

/-- Where `C'` holds the two systems take the same step, so the runs of the one along `C'` are runs of the other. -/
theorem exec_map (hstep : ∀ s a, C' s a → step' s a = step s (f a)) (hC : Along step' C' s as) :
    exec step s (as.map f) = exec step' s as := by
  induction as generalizing s with
  | nil => rfl
  | cons a as ih =>
    rw [List.map_cons, exec, exec, ← hstep s a hC.1]
    cases hs : step' s a with
    | none => rfl
    | some u => exact ih (hC.2 u hs)

theorem Along.map (hstep : ∀ s a, C' s a → step' s a = step s (f a)) (hD : ∀ s a, C' s a → D s (f a))
    (hC : Along step' C' s as) : Along step D s (as.map f) := by
  induction as generalizing s with
  | nil => trivial
  | cons a as ih => exact ⟨hD s a hC.1, fun u hu => ih (hC.2 u ((hstep s a hC.1).trans hu))⟩

end

/-- A system that is never stuck before `F` holds, and comes nearer to it with every step, gets there whatever
the choices `os` are. -/
theorem exec_finish {β : Type*} {I F : σ → Prop} (act : β → α) (μ : σ → Nat)
    (hI : ∀ s, I s → F s ∨ ∀ o, ∃ s', step s (act o) = some s' ∧ I s' ∧ μ s' < μ s) (h₀ : I s) (os : Nat → β) :
    ∃ n t, exec step s ((List.range n).map fun k => act (os k)) = some t ∧ I t ∧ F t := by
  induction hm : μ s using Nat.strongRecOn generalizing s os with
  | ind m ih =>
    rcases hI s h₀ with hF | hs
    · exact ⟨0, s, rfl, h₀, hF⟩
    · obtain ⟨u, hu, hIu, hlt⟩ := hs (os 0)
      obtain ⟨n, t, he, ht⟩ := ih (μ u) (hm ▸ hlt) hIu (fun k => os (k + 1)) rfl
      refine ⟨n + 1, t, ?_, ht⟩
      rw [List.range_succ_eq_map, List.map_cons, List.map_map]
      exact exec_cons.2 ⟨u, hu, he⟩

/-- A system that can always come nearer to `F` with a step that meets `C` gets there along `C`. -/
theorem exec_reach {I F : σ → Prop} (μ : σ → Nat)
    (hI : ∀ s, I s → F s ∨ ∃ a s', C s a ∧ step s a = some s' ∧ I s' ∧ μ s' < μ s) (h₀ : I s) :
    ∃ as t, Along step C s as ∧ exec step s as = some t ∧ I t ∧ F t := by
  induction hm : μ s using Nat.strongRecOn generalizing s with
  | ind m ih =>
    rcases hI s h₀ with hF | ⟨a, u, ha, hu, hIu, hlt⟩
    · exact ⟨[], s, trivial, rfl, h₀, hF⟩
    · obtain ⟨as, t, hal, he, ht⟩ := ih (μ u) (hm ▸ hlt) hIu rfl
      refine ⟨a :: as, t, ⟨ha, fun v hv => ?_⟩, exec_cons.2 ⟨u, hu, he⟩, ht⟩
      rwa [← Option.some.inj (hu.symm.trans hv)]

/-- The number of steps of a run at which `P` holds. -/
def tally (step : σ → α → Option σ) (P : σ → α → Bool) : σ → List α → Nat
  | _, [] => 0
  | s, a :: as => (P s a).toNat + match step s a with
    | some s' => tally step P s' as
    | none => 0

variable {P : σ → α → Bool}

theorem exec_inv_tally {I : Nat → σ → Prop} {n : Nat}
    (hI : ∀ n s a s', I n s → C s a → step s a = some s' → I (n + (P s a).toNat) s')
    (h₀ : I n s) (hC : Along step C s as) (he : exec step s as = some t) :
    I (n + tally step P s as) t := by
  induction as generalizing s n with
  | nil => cases he; exact h₀
  | cons a as ih =>
    obtain ⟨u, hu, he⟩ := exec_cons.1 he
    have := ih (hI n s a u h₀ hC.1 hu) (hC.2 u hu) he
    simpa only [tally, hu, Nat.add_assoc] using this

theorem tally_eq_zero (he : exec step s as = some t) :
    tally step P s as = 0 ↔ Along step (fun s a => P s a = false) s as := by
  induction as generalizing s with
  | nil => simp [tally, Along]
  | cons a as ih =>
    obtain ⟨u, hu, he⟩ := exec_cons.1 he
    simp only [tally, Along, hu, Nat.add_eq_zero_iff, ih he, Bool.toNat_eq_zero, Option.some.injEq,
      forall_eq']

/-- What the steps of a run emit, in order. -/
def trace {ε : Type*} (step : σ → α → Option σ) (emit : σ → α → List ε) : σ → List α → List ε
  | _, [] => []
  | s, a :: as => emit s a ++ match step s a with
    | some s' => trace step emit s' as
    | none => []

variable {ε : Type*} {emit : σ → α → List ε}

theorem exec_inv_trace {I : List ε → σ → Prop} {l : List ε} (emit : σ → α → List ε)
    (hI : ∀ l s a s', I l s → C s a → step s a = some s' → I (l ++ emit s a) s')
    (h₀ : I l s) (hC : Along step C s as) (he : exec step s as = some t) :
    I (l ++ trace step emit s as) t := by
  induction as generalizing s l with
  | nil =>
    cases he
    rwa [trace, List.append_nil]
  | cons a as ih =>
    obtain ⟨u, hu, he⟩ := exec_cons.1 he
    have := ih (hI l s a u h₀ hC.1 hu) (hC.2 u hu) he
    simpa only [trace, hu, List.append_assoc] using this

/-- An invariant that speaks of the actions taken so far. -/
theorem exec_inv_acts {I : List α → σ → Prop} {l : List α}
    (hI : ∀ l s a s', I l s → C s a → step s a = some s' → I (l ++ [a]) s')
    (h₀ : I l s) (hC : Along step C s as) (he : exec step s as = some t) : I (l ++ as) t := by
  induction as generalizing s l with
  | nil =>
    cases he
    rwa [List.append_nil]
  | cons a as ih =>
    obtain ⟨u, hu, he⟩ := exec_cons.1 he
    have := ih (hI l s a u h₀ hC.1 hu) (hC.2 u hu) he
    simpa only [List.append_assoc, List.singleton_append] using this

end Lts
