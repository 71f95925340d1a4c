import OsTransport.RequestView

/-!
# The account of one request

When the submissions of a request come one after another, `pending_count` of its context is the number
of its tasks that are queued or still count for the worker that took them, all of them on the worker the
context is bound to, and the context goes when the last one is retired or cancelled. `View.Account` says
this of every moment, also of those in which a submission has attached its tasks and the context is still
missing, while a worker may still be retiring the context of the submission before. It is kept by every
step that `Mark.Allowed` admits (`View.Account.step`).
-/

namespace OsTransport

namespace View
variable {τ α κ : Type}

/-- A submission of the request has attached its tasks and not yet inserted their context. -/
def Open (v : View τ α κ) : Prop := ∃ t i nodes, v.role t = .attached i nodes ∨ v.role t = .missed i nodes

/-- No task of the request is queued: the table and the duties are empty, or the last task counts for
the worker it ran on, or that worker is about to remove the context. -/
inductive Residue (v : View τ α κ) : Prop
  | gone (hc : v.ctxs = []) (hd : ∀ i, v.duty i = .none)
  | last (w : Fin 64) (c : RequestContext τ κ) (hc : v.ctxs = [c]) (hw : c.workerIdx = w)
      (hn : c.pendingCount = Int32.ofNat 1) (hd : v.duty w = .counted ∨ v.duty w = .dec c.owner)
      (hd' : ∀ i, i ≠ w → v.duty i = .none)
  | retiring (w : Fin 64) (c : RequestContext τ κ) (hc : v.ctxs = [c]) (hw : c.workerIdx = w)
      (hd : v.duty w = .retiring) (hd' : ∀ i, i ≠ w → v.duty i = .none)

end View

namespace Role
variable {τ α κ : Type}

/-- Not part of the request, or inside a cancel that has removed nothing yet. -/
def calm : Role τ α κ → Prop
  | .none | .cancelFind | .cancelRead _ | .cancelQueue .. => True
  | _ => False

/-- A cancel that holds a pointer or has read through it holds it to `c` and has read from `c`. -/
def pointsAt (c : RequestContext τ κ) : Role τ α κ → Prop
  | .cancelRead x => x = c.owner
  | .cancelQueue x i => x = c.owner ∧ i = c.workerIdx
  | _ => True

end Role

namespace View
variable {τ α κ : Type}

inductive Stage (v : View τ α κ) : Prop
  | settled (hq : ∀ i, v.queued i = []) (hres : v.Residue) (hr : ∀ t, (v.role t).calm)
  /-- tasks are queued on `w`, and `d` is 1 while one more of them counts for `w` -/
  | live (w : Fin 64) (c : RequestContext τ κ) (d : Nat) (hc : v.ctxs = [c]) (hw : c.workerIdx = w)
      (hne : v.queued w ≠ []) (hn : c.pendingCount = Int32.ofNat ((v.queued w).length + d))
      (hlt : (v.queued w).length + d < 2 ^ 32)
      (hd : v.duty w = .none ∧ d = 0 ∨ (v.duty w = .counted ∨ v.duty w = .dec c.owner) ∧ d = 1)
      (hq : ∀ i, i ≠ w → v.queued i = []) (hd' : ∀ i, i ≠ w → v.duty i = .none)
      (hr : ∀ t, (v.role t).calm)
  /-- the queue was cleared by the cancel `u`, which has not corrected the count -/
  | cancelling (u : τ) (c : RequestContext τ κ) (n : Nat) (hc : v.ctxs = [c])
      (hn : c.pendingCount = Int32.ofNat n) (hu : v.role u = .cancelUpdate c.owner (UInt32.ofNat n))
      (hq : ∀ i, v.queued i = []) (hd : ∀ i, v.duty i = .none) (hr : ∀ t, t ≠ u → (v.role t).calm)
  /-- the submission `u` has attached its tasks to `w` -/
  | window (u : τ) (w : Fin 64) (nodes : List (ThreadPoolTask τ α κ)) (hres : v.Residue)
      (hu : v.role u = .attached w nodes ∨ v.role u = .missed w nodes ∧ v.ctxs = [])
      (hlen : 0 < nodes.length ∧ nodes.length < 2 ^ 32)
      (hq : v.queued w = nodes) (hq' : ∀ i, i ≠ w → v.queued i = [])
      (hr : ∀ t, t ≠ u → v.role t = .none)

structure Account (v : View τ α κ) : Prop where
  stage : v.Stage
  ptr : ∀ c ∈ v.ctxs, ∀ t, (v.role t).pointsAt c

end View

/-- The marked steps that keep the account: a submission comes when no task of the one before is queued,
finds no context and gets its own, and nothing takes or cancels its tasks before. -/
def Mark.Allowed {τ α κ : Type} (v : View τ α κ) : Mark → Prop
  | .plain => True
  | .take => ¬ v.Open
  | .attach => (∀ i, v.queued i = []) ∧ ∀ t, v.role t = .none
  | .hit => False
  | .noContext => False
  | .cancel => ¬ v.Open

namespace View
variable {τ α κ : Type} {v v' : View τ α κ}
open Function (update update_self update_of_ne)

/-! ### The table and the duties while nothing is queued -/

namespace Residue

theorem congr (h : v.Residue) (hc : v'.ctxs = v.ctxs) (hd : v'.duty = v.duty) : v'.Residue := by
  cases h with
  | gone hc' hd' => exact .gone (hc.trans hc') (hd ▸ hd')
  | last w c hc' hw hn h₁ h₂ => exact .last w c (hc.trans hc') hw hn (hd ▸ h₁) (hd ▸ h₂)
  | retiring w c hc' hw h₁ h₂ => exact .retiring w c (hc.trans hc') hw (hd ▸ h₁) (hd ▸ h₂)

theorem gone_of_nil (h : v.Residue) (hc : v.ctxs = []) (i : Fin 64) : v.duty i = .none := by
  cases h with
  | gone _ hd => exact hd i
  | last w c hc' => simp [hc'] at hc
  | retiring w c hc' => simp [hc'] at hc

/-- Only the last task's worker has a duty. -/
theorem duty_cases (h : v.Residue) {i : Fin 64} (hi : v.duty i ≠ .none) :
    ∃ c, v.ctxs = [c] ∧ c.workerIdx = i ∧ (∀ j, j ≠ i → v.duty j = .none) ∧
      (c.pendingCount = Int32.ofNat 1 ∧ (v.duty i = .counted ∨ v.duty i = .dec c.owner) ∨
        v.duty i = .retiring) := by
  cases h with
  | gone _ hd => exact absurd (hd i) hi
  | last w c hc hw hn hd hd' =>
    obtain rfl : i = w := by
      by_contra hne
      exact hi (hd' i hne)
    exact ⟨c, hc, hw, hd', .inl ⟨hn, hd⟩⟩
  | retiring w c hc hw hd hd' =>
    obtain rfl : i = w := by
      by_contra hne
      exact hi (hd' i hne)
    exact ⟨c, hc, hw, hd', .inr hd⟩

theorem found (h : v.Residue) {i : Fin 64} {c : RequestContext τ κ} (hd : v.duty i = .counted)
    (hc : v.ctxs.head? = some c) : Residue { v with duty := update v.duty i (.dec c.owner) } := by
  obtain ⟨c', hc', hw, hoth, ⟨hn, -⟩ | hret⟩ := h.duty_cases (i := i) (by simp [hd])
  · obtain rfl : c' = c := by simpa [hc'] using hc
    exact .last i c' hc' hw hn (.inr (update_self ..)) fun j hj => (update_of_ne hj ..).trans (hoth j hj)
  · rw [hd] at hret; cases hret

theorem dec [DecidableEq τ] (h : v.Residue) {i : Fin 64} {x : τ} {c : RequestContext τ κ} (hd : v.duty i = .dec x)
    (hc : (v.ctxs.map (Pool.bumped x (-1))).find? (fun c => c.owner == x) = some c) :
    Residue { v with
      ctxs := v.ctxs.map (Pool.bumped x (-1))
      duty := update v.duty i (if c.pendingCount = 0 then .retiring else .none) } := by
  obtain ⟨c', hc', hw, hoth, ⟨hn, hcnt⟩ | hret⟩ := h.duty_cases (i := i) (by simp [hd])
  · obtain rfl : x = c'.owner := by simpa [hd] using hcnt
    obtain rfl : Pool.bumped c'.owner (-1) c' = c := by simpa [hc'] using hc
    have hzero : (Pool.bumped c'.owner (-1) c').pendingCount = 0 := by
      simp only [Pool.bumped, if_true, hn]; rfl
    refine .retiring i (Pool.bumped c'.owner (-1) c') (by simp [hc']) ?_ (by simp [hzero]) fun j hj => ?_
    · simp only [Pool.bumped, if_true, hw]
    · exact (update_of_ne hj ..).trans (hoth j hj)
  · rw [hd] at hret; cases hret

theorem retire (h : v.Residue) {i : Fin 64} (hd : v.duty i = .retiring) :
    Residue { v with ctxs := v.ctxs.tail, duty := update v.duty i .none } := by
  obtain ⟨c', hc', -, hoth, -⟩ := h.duty_cases (i := i) (by simp [hd])
  refine .gone (by simp [hc']) fun j => ?_
  rcases eq_or_ne j i with rfl | hj
  · exact update_self ..
  · exact (update_of_ne hj ..).trans (hoth j hj)

theorem not_missing (h : v.Residue) {i : Fin 64} (hd : v.duty i = .counted) : v.ctxs ≠ [] := fun hc => by
  have := h.gone_of_nil hc i
  rw [hd] at this; cases this

theorem not_dangling [DecidableEq τ] (h : v.Residue) {i : Fin 64} {x : τ} (hd : v.duty i = .dec x) (d : Int32) :
    (v.ctxs.map (Pool.bumped x d)).find? (fun c => c.owner == x) ≠ none := by
  obtain ⟨c, hc, -, -, ⟨-, hcnt⟩ | hret⟩ := h.duty_cases (i := i) (by simp [hd])
  · obtain rfl : x = c.owner := by simpa [hd] using hcnt
    simp [hc]
  · rw [hd] at hret; cases hret

end Residue

/-! ### The stages -/

namespace Stage

theorem ctxs_eq (h : v.Stage) : v.ctxs = [] ∨ ∃ c, v.ctxs = [c] := by
  have hres : v.Residue → v.ctxs = [] ∨ ∃ c, v.ctxs = [c] := fun h => by
    cases h with
    | gone hc => exact .inl hc
    | last w c hc => exact .inr ⟨c, hc⟩
    | retiring w c hc => exact .inr ⟨c, hc⟩
  cases h with
  | settled hq h hr => exact hres h
  | live w c d hc => exact .inr ⟨c, hc⟩
  | cancelling u c n hc => exact .inr ⟨c, hc⟩
  | window u w nodes h => exact hres h

theorem found (h : v.Stage) {i : Fin 64} {c : RequestContext τ κ} (hd : v.duty i = .counted)
    (hc : v.ctxs.head? = some c) : Stage { v with duty := update v.duty i (.dec c.owner) } := by
  cases h with
  | settled hq h hr => exact .settled hq (h.found hd hc) hr
  | live w c' d hc' hw hne hn hlt hdw hq hd' hr =>
    obtain rfl : c' = c := by simpa [hc'] using hc
    obtain rfl : i = w := by
      by_contra hi
      rw [hd' i hi] at hd; cases hd
    refine .live i c' d hc' hw hne hn hlt (.inr ⟨.inr (update_self ..), ?_⟩) hq
      (fun j hj => (update_of_ne hj ..).trans (hd' j hj)) hr
    simpa [hd] using hdw
  | cancelling u c' n hc' hn hu hq hd' hr => rw [hd' i] at hd; cases hd
  | window u w nodes h hu hlen hq hq' hr => exact .window u w nodes (h.found hd hc) hu hlen hq hq' hr

theorem dec [DecidableEq τ] (h : v.Stage) {i : Fin 64} {x : τ} {c : RequestContext τ κ} (hd : v.duty i = .dec x)
    (hc : (v.ctxs.map (Pool.bumped x (-1))).find? (fun c => c.owner == x) = some c) :
    Stage { v with
      ctxs := v.ctxs.map (Pool.bumped x (-1))
      duty := update v.duty i (if c.pendingCount = 0 then .retiring else .none) } := by
  cases h with
  | settled hq h hr => exact .settled hq (h.dec hd hc) hr
  | live w c' d hc' hw hne hn hlt hdw hq hd' hr =>
    obtain rfl : i = w := by
      by_contra hi
      rw [hd' i hi] at hd; cases hd
    obtain ⟨rfl, rfl⟩ : x = c'.owner ∧ d = 1 := by simpa [hd] using hdw
    obtain rfl : Pool.bumped c'.owner (-1) c' = c := by simpa [hc'] using hc
    have hcount : (Pool.bumped c'.owner (-1) c').pendingCount = Int32.ofNat (v.queued i).length := by
      simp only [Pool.bumped, if_true, hn, Int32.count_dec]
    -- the count cannot read 0 while tasks are queued
    have hpos : (Pool.bumped c'.owner (-1) c').pendingCount ≠ 0 := fun h0 =>
      hne (List.length_eq_zero_iff.1 ((Int32.count_eq_zero (by omega)).1 (hcount ▸ h0)))
    refine .live i _ 0 (by simp [hc']) ?_ hne hcount (by simp; omega) (.inl ⟨by simp [hpos], rfl⟩) hq
      (fun j hj => (update_of_ne hj ..).trans (hd' j hj)) hr
    simp only [Pool.bumped, if_true, hw]
  | cancelling u c' n hc' hn hu hq hd' hr => rw [hd' i] at hd; cases hd
  | window u w nodes h hu hlen hq hq' hr =>
    exact .window u w nodes (h.dec hd hc) (hu.imp_right fun hu => ⟨hu.1, by simp [hu.2]⟩) hlen hq hq' hr

theorem retire (h : v.Stage) {i : Fin 64} (hd : v.duty i = .retiring) :
    Stage { v with ctxs := v.ctxs.tail, duty := update v.duty i .none } := by
  cases h with
  | settled hq h hr => exact .settled hq (h.retire hd) hr
  | live w c' d hc' hw hne hn hlt hdw hq hd' hr =>
    obtain rfl : i = w := by
      by_contra hi
      rw [hd' i hi] at hd; cases hd
    simp [hd] at hdw
  | cancelling u c' n hc' hn hu hq hd' hr => rw [hd' i] at hd; cases hd
  | window u w nodes h hu hlen hq hq' hr =>
    exact .window u w nodes (h.retire hd) (hu.imp_right fun hu => ⟨hu.1, by simp [hu.2]⟩) hlen hq hq' hr

theorem not_missing (h : v.Stage) {i : Fin 64} (hd : v.duty i = .counted) : v.ctxs ≠ [] := by
  cases h with
  | settled hq h hr => exact h.not_missing hd
  | live w c' d hc' => simp [hc']
  | cancelling u c' n hc' => simp [hc']
  | window u w nodes h hu hlen hq hq' hr => exact h.not_missing hd

theorem not_dangling [DecidableEq τ] (h : v.Stage) {i : Fin 64} {x : τ} (hd : v.duty i = .dec x) :
    (v.ctxs.map (Pool.bumped x (-1))).find? (fun c => c.owner == x) ≠ none := by
  cases h with
  | settled hq h hr => exact h.not_dangling hd _
  | live w c' d hc' hw hne hn hlt hdw hq hd' hr =>
    obtain rfl : i = w := by
      by_contra hi
      rw [hd' i hi] at hd; cases hd
    obtain ⟨rfl, rfl⟩ : x = c'.owner ∧ d = 1 := by simpa [hd] using hdw
    simp [hc']
  | cancelling u c' n hc' hn hu hq hd' hr => rw [hd' i] at hd; cases hd
  | window u w nodes h hu hlen hq hq' hr => exact h.not_dangling hd _

/-- The last queued task leaves a residue, any other one a live request. -/
theorem take (h : v.Stage) (ho : ¬ v.Open) {i : Fin 64} {x : ThreadPoolTask τ α κ}
    {rest : List (ThreadPoolTask τ α κ)} (hd : v.duty i = .none) (hq : v.queued i = x :: rest) :
    Stage { v with queued := update v.queued i rest, duty := update v.duty i .counted } := by
  cases h with
  | settled hq' h hr => simp [hq' i] at hq
  | live w c d hc hw hne hn hlt hdw hq' hd' hr =>
    obtain rfl : i = w := by
      by_contra hi
      simp [hq' i hi] at hq
    obtain rfl : d = 0 := by simpa [hd] using hdw
    have hoth : ∀ j, j ≠ i → update v.duty i .counted j = .none := fun j hj =>
      (update_of_ne hj ..).trans (hd' j hj)
    have hqoth : ∀ j, j ≠ i → update v.queued i rest j = [] := fun j hj =>
      (update_of_ne hj ..).trans (hq' j hj)
    simp only [hq, List.length_cons] at hn hlt
    cases rest with
    | nil =>
      refine .settled (fun j => ?_) (.last i c hc hw hn (.inl (update_self ..)) hoth) hr
      rcases eq_or_ne j i with rfl | hj
      · exact update_self ..
      · exact hqoth j hj
    | cons y rest =>
      refine .live i c 1 hc hw (by simp) ?_ ?_ (.inr ⟨.inl (update_self ..), rfl⟩) hqoth hoth hr
      · simp only [update_self]; exact hn
      · simp only [update_self]; exact hlt
  | cancelling u c n hc hn hu hq' hd' hr => simp [hq' i] at hq
  | window u w nodes h hu hlen hq' hq'' hr =>
    exact absurd ⟨u, w, nodes, hu.imp_right And.left⟩ ho

/-- Submissions of the request come one at a time, after the tasks of the one before. -/
theorem attach [DecidableEq τ] (h : v.Stage) (hq₀ : ∀ i, v.queued i = []) (hr₀ : ∀ t, v.role t = .none)
    (t : τ) (i : Fin 64) {nodes : List (ThreadPoolTask τ α κ)}
    (hlen : 0 < nodes.length ∧ nodes.length < 2 ^ 32) :
    Stage { v with
      queued := update v.queued i (v.queued i ++ nodes), role := update v.role t (.attached i nodes) } := by
  cases h with
  | settled hq h hr =>
    refine .window t i nodes (h.congr rfl rfl) (.inl (update_self ..)) hlen (by simp [hq]) (fun j hj => ?_)
      fun u hu => (update_of_ne hu ..).trans (hr₀ u)
    exact (update_of_ne hj ..).trans (hq j)
  | live w c d hc hw hne => exact absurd (hq₀ w) hne
  | cancelling u c n hc hn hu => rw [hr₀ u] at hu; cases hu
  | window u w nodes h hu => rcases hu with hu | ⟨hu, -⟩ <;> rw [hr₀ u] at hu <;> cases hu

theorem window_of (h : v.Stage) {t : τ} {i : Fin 64} {nodes : List (ThreadPoolTask τ α κ)}
    (ht : v.role t = .attached i nodes ∨ v.role t = .missed i nodes) :
    v.Residue ∧ (v.role t = .missed i nodes → v.ctxs = []) ∧ (0 < nodes.length ∧ nodes.length < 2 ^ 32) ∧
      v.queued i = nodes ∧ (∀ j, j ≠ i → v.queued j = []) ∧ ∀ u, u ≠ t → v.role u = .none := by
  have hcalm : ¬ (v.role t).calm := by rcases ht with ht | ht <;> rw [ht] <;> exact id
  cases h with
  | settled hq h hr => exact absurd (hr t) hcalm
  | live w c d hc hw hne hn hlt hd hq hd' hr => exact absurd (hr t) hcalm
  | cancelling u c n hc hn hu hq hd hr =>
    obtain rfl : t = u := by
      by_contra hne
      exact hcalm (hr t hne)
    rcases ht with ht | ht <;> rw [hu] at ht <;> cases ht
  | window u w nodes' h hu hlen hq hq' hr =>
    obtain rfl : t = u := by
      by_contra hne
      rcases ht with ht | ht <;> rw [hr t hne] at ht <;> cases ht
    rcases hu with hu | ⟨hu, hnil⟩
    · obtain ⟨rfl, rfl⟩ : w = i ∧ nodes' = nodes := by simpa [hu] using ht
      exact ⟨h, fun hm => by simp [hu] at hm, hlen, hq, hq', hr⟩
    · obtain ⟨rfl, rfl⟩ : w = i ∧ nodes' = nodes := by simpa [hu] using ht
      exact ⟨h, fun _ => hnil, hlen, hq, hq', hr⟩

theorem miss [DecidableEq τ] (h : v.Stage) {t : τ} {i : Fin 64} {nodes : List (ThreadPoolTask τ α κ)}
    (ht : v.role t = .attached i nodes) (hc : v.ctxs = []) :
    Stage { v with role := update v.role t (.missed i nodes) } := by
  obtain ⟨hres, -, hlen, hq, hq', hr⟩ := h.window_of (.inl ht)
  exact .window t i nodes (hres.congr rfl rfl) (.inr ⟨update_self .., hc⟩) hlen hq hq'
    fun u hu => (update_of_ne hu ..).trans (hr u hu)

theorem insert [DecidableEq τ] (h : v.Stage) {t : τ} {i : Fin 64} {nodes : List (ThreadPoolTask τ α κ)}
    {c : RequestContext τ κ} (ht : v.role t = .missed i nodes)
    (hc : c.workerIdx = i ∧ c.pendingCount = Int32.ofNat nodes.length) :
    Stage { v with ctxs := c :: v.ctxs, role := update v.role t .none } := by
  obtain ⟨hres, hnil, hlen, hq, hq', hr⟩ := h.window_of (.inr ht)
  have hnil := hnil ht
  have hnone := hres.gone_of_nil hnil
  refine .live i c 0 (by simp [hnil]) hc.1 ?_ ?_ ?_ (.inl ⟨hnone i, rfl⟩) hq' (fun j _ => hnone j)
    fun u => ?_
  · rw [hq]; exact List.length_pos_iff.1 hlen.1
  · rw [hq]; exact hc.2
  · rw [hq]; exact hlen.2
  · rcases eq_or_ne u t with rfl | hu
    · simp only [update_self]; trivial
    · simp only [update_of_ne hu, hr u hu]; trivial

theorem calm [DecidableEq τ] (h : v.Stage) (ho : ¬ v.Open) {t : τ} (ht : (v.role t).calm)
    {x : Role τ α κ} (hx : x.calm) : Stage { v with role := update v.role t x } := by
  have hcalm : ∀ u, (v.role u).calm → (update v.role t x u).calm := fun u hu => by
    rcases eq_or_ne u t with rfl | hne
    · rwa [update_self]
    · rwa [update_of_ne hne]
  cases h with
  | settled hq h hr => exact .settled hq (h.congr rfl rfl) fun u => hcalm u (hr u)
  | live w c d hc hw hne hn hlt hd hq hd' hr =>
    exact .live w c d hc hw hne hn hlt hd hq hd' fun u => hcalm u (hr u)
  | cancelling u c n hc hn hu hq hd hr =>
    have hne : u ≠ t := fun h => by rw [← h, hu] at ht; exact ht
    exact .cancelling u c n hc hn ((update_of_ne hne ..).trans hu) hq hd fun s hs => hcalm s (hr s hs)
  | window u w nodes h hu => exact absurd ⟨u, w, nodes, hu.imp_right And.left⟩ ho

theorem not_open (h : v.Stage) {t : τ} (ht : v.role t ≠ .none) (ht' : (v.role t).calm) : ¬ v.Open := by
  rintro ⟨u, i, nodes, hu⟩
  obtain ⟨-, -, -, -, -, hr⟩ := h.window_of hu
  rcases eq_or_ne t u with rfl | hne
  · rcases hu with hu | hu <;> rw [hu] at ht' <;> exact ht'
  · exact ht (hr t hne)

theorem not_bump (h : v.Stage) (t x : τ) : v.role t ≠ .bump x := fun ht => by
  have hcalm : ¬ (v.role t).calm := by rw [ht]; exact id
  cases h with
  | settled hq h hr => exact hcalm (hr t)
  | live w c d hc hw hne hn hlt hd hq hd' hr => exact hcalm (hr t)
  | cancelling u c n hc hn hu hq hd hr =>
    rcases eq_or_ne t u with rfl | hne
    · rw [hu] at ht; cases ht
    · exact hcalm (hr t hne)
  | window u w nodes h hu hlen hq hq' hr =>
    rcases eq_or_ne t u with rfl | hne
    · rcases hu with hu | ⟨hu, -⟩ <;> rw [hu] at ht <;> cases ht
    · exact hcalm (hr t hne ▸ trivial)

/-- A cancel clears the queue of the worker the context is bound to, or there is nothing to clear. -/
theorem cancelQueue [DecidableEq τ] (h : v.Stage) {t x : τ} {i : Fin 64} (ht : v.role t = .cancelQueue x i)
    (hptr : ∀ c ∈ v.ctxs, x = c.owner ∧ i = c.workerIdx) (hd : v.duty i = .none) :
    Stage { v with
      queued := update v.queued i []
      role := update v.role t (if 0 < UInt32.ofNat (v.queued i).length then
        .cancelUpdate x (UInt32.ofNat (v.queued i).length) else .none) } := by
  have htcalm : (v.role t).calm := by rw [ht]; trivial
  have hempty : (∀ j, v.queued j = []) → Stage { v with
      queued := update v.queued i []
      role := update v.role t (if 0 < UInt32.ofNat (v.queued i).length then
        .cancelUpdate x (UInt32.ofNat (v.queued i).length) else .none) } := fun hq => by
    have := h.calm (h.not_open (by simp [ht]) htcalm) htcalm (x := .none) trivial
    have hupd : update v.queued i [] = v.queued := by rw [← hq i, Function.update_eq_self]
    simpa [hq i, hupd] using this
  cases h with
  | settled hq h hr => exact hempty hq
  | cancelling u c n hc hn hu hq hd' hr => exact hempty hq
  | window u w nodes h hu =>
    exact absurd ⟨u, w, nodes, hu.imp_right And.left⟩
      ((Stage.window u w nodes h hu ‹_› ‹_› ‹_› ‹_›).not_open (by simp [ht]) htcalm)
  | live w c d hc hw hne hn hlt hdw hq hd' hr =>
    obtain ⟨rfl, rfl⟩ := hptr c (by simp [hc])
    obtain rfl : c.workerIdx = w := hw
    obtain rfl : d = 0 := by simpa [hd] using hdw
    have hpos : 0 < UInt32.ofNat (v.queued c.workerIdx).length := by
      rw [UInt32.lt_iff_toNat_lt, UInt32.toNat_ofNat', Nat.mod_eq_of_lt (by omega)]
      exact List.length_pos_iff.2 hne
    refine .cancelling t c (v.queued c.workerIdx).length hc hn ?_ (fun j => ?_) (fun j => ?_) fun u hu => ?_
    · simp only [update_self, hpos, if_true]
    · rcases eq_or_ne j c.workerIdx with rfl | hj
      · exact update_self ..
      · exact (update_of_ne hj ..).trans (hq j hj)
    · rcases eq_or_ne j c.workerIdx with rfl | hj
      · exact hd
      · exact hd' j hj
    · simp only [update_of_ne hu]; exact hr u

/-- The cancel that cleared the queue corrects the count and removes the context. -/
theorem cancelUpdate [DecidableEq τ] (h : v.Stage) {t x : τ} {n : UInt32}
    (ht : v.role t = .cancelUpdate x n) :
    ∃ c, v.ctxs = [c] ∧ x = c.owner ∧ (Pool.bumped x (-n.toInt32) c).pendingCount = 0 ∧
      Stage { v with ctxs := [], role := update v.role t .none } := by
  have hcalm : ¬ (v.role t).calm := by rw [ht]; exact id
  cases h with
  | settled hq h hr => exact absurd (hr t) hcalm
  | live w c d hc hw hne hn hlt hd hq hd' hr => exact absurd (hr t) hcalm
  | cancelling u c k hc hn hu hq hd hr =>
    obtain rfl : t = u := by
      by_contra hne
      exact hcalm (hr t hne)
    obtain ⟨rfl, rfl⟩ : x = c.owner ∧ n = UInt32.ofNat k := by simpa [ht] using hu
    refine ⟨c, hc, rfl, ?_, .settled hq (.gone rfl hd) fun u => ?_⟩
    · have := Int32.count_sub 0 k
      rw [Nat.zero_add] at this
      simp only [Pool.bumped, if_true, hn, this]; rfl
    · rcases eq_or_ne u t with rfl | hu
      · simp only [update_self]; trivial
      · simp only [update_of_ne hu]; exact hr u hu
  | window u w nodes h hu hlen hq hq' hr =>
    rcases eq_or_ne t u with rfl | hne
    · rcases hu with hu | ⟨hu, -⟩ <;> rw [ht] at hu <;> cases hu
    · rw [hr t hne] at ht; cases ht

end Stage

/-! ### The account -/

namespace Account
variable [DecidableEq τ]

theorem ptr_map {l : List (RequestContext τ κ)} {role : τ → Role τ α κ} (x : τ) (d : Int32)
    (h : ∀ c ∈ l, ∀ t, (role t).pointsAt c) :
    ∀ c ∈ l.map (Pool.bumped x d), ∀ t, (role t).pointsAt c := by
  intro c hc t
  obtain ⟨c', hc', rfl⟩ := List.mem_map.1 hc
  have := h c' hc' t
  have hw : (Pool.bumped x d c').workerIdx = c'.workerIdx := by unfold Pool.bumped; split <;> rfl
  cases hr : role t <;> rw [hr] at this <;> simp_all [Role.pointsAt]

theorem ptr_update {l : List (RequestContext τ κ)} {role : τ → Role τ α κ} {u : τ} {x : Role τ α κ}
    (h : ∀ c ∈ l, ∀ t, (role t).pointsAt c) (hx : ∀ c ∈ l, x.pointsAt c) :
    ∀ c ∈ l, ∀ t, (update role u x t).pointsAt c := by
  intro c hc t
  rcases eq_or_ne t u with rfl | ht
  · rw [update_self]; exact hx c hc
  · rw [update_of_ne ht]; exact h c hc t

theorem step {m : Mark} (h : v.Account) (hs : Step v m v') (hm : m.Allowed v) : v'.Account := by
  cases hs with
  | refl => exact h
  | take i x rest hd hq => exact ⟨h.stage.take hm hd hq, h.ptr⟩
  | found i c hd hc => exact ⟨h.stage.found hd hc, h.ptr⟩
  | missing i hd hc => exact absurd hc (h.stage.not_missing hd)
  | dec i x c hd hc => exact ⟨h.stage.dec hd hc, ptr_map x (-1) h.ptr⟩
  | decDangling i x d hd hc => exact absurd hc (h.stage.not_dangling hd)
  | retire i hd => exact ⟨h.stage.retire hd, fun c hc => h.ptr c (List.mem_of_mem_tail hc)⟩
  | attach t i nodes hr hd hlen =>
    exact ⟨h.stage.attach hm.1 hm.2 t i hlen, ptr_update h.ptr fun _ _ => trivial⟩
  | hit => exact hm.elim
  | miss t i nodes hr hc => exact ⟨h.stage.miss hr hc, ptr_update h.ptr fun _ _ => trivial⟩
  | bump t x d hr => exact absurd hr (h.stage.not_bump t x)
  | insert t i nodes c hr hc =>
    obtain ⟨-, -, -, -, -, hr'⟩ := h.stage.window_of (.inr hr)
    refine ⟨h.stage.insert hr hc.2, fun c' _ u => ?_⟩
    rcases eq_or_ne u t with rfl | hu
    · simp only [update_self]; trivial
    · simp only [update_of_ne hu, hr' u hu]; trivial
  | noContext => exact hm.elim
  | cancel t hr =>
    exact ⟨h.stage.calm hm (by rw [hr]; trivial) trivial, ptr_update h.ptr fun _ _ => trivial⟩
  | cancelHit t c hr hc =>
    have hcalm : (v.role t).calm := by rw [hr]; trivial
    refine ⟨h.stage.calm (h.stage.not_open (by simp [hr]) hcalm) hcalm trivial,
      ptr_update h.ptr fun c' hc' => ?_⟩
    rcases h.stage.ctxs_eq with hnil | ⟨c₀, hc₀⟩
    · simp [hnil] at hc
    · obtain rfl : c₀ = c := by simpa [hc₀] using hc
      obtain rfl : c' = c₀ := by simpa [hc₀] using hc'
      rfl
  | cancelMiss t hr hc =>
    have hcalm : (v.role t).calm := by rw [hr]; trivial
    exact ⟨h.stage.calm (h.stage.not_open (by simp [hr]) hcalm) hcalm trivial,
      ptr_update h.ptr fun _ _ => trivial⟩
  | cancelRead t x i hr hi =>
    have hcalm : (v.role t).calm := by rw [hr]; trivial
    refine ⟨h.stage.calm (h.stage.not_open (by simp [hr]) hcalm) hcalm trivial,
      ptr_update h.ptr fun c hc => ?_⟩
    have hx : x = c.owner := by simpa [hr, Role.pointsAt] using h.ptr c hc t
    refine ⟨hx, hi c ?_⟩
    rcases h.stage.ctxs_eq with hnil | ⟨c₀, hc₀⟩
    · simp [hnil] at hc
    · obtain rfl : c = c₀ := by simpa [hc₀] using hc
      simp [hc₀, hx]
  | cancelQueue t x i hr hd =>
    refine ⟨h.stage.cancelQueue hr (fun c hc => by simpa [hr, Role.pointsAt] using h.ptr c hc t) hd,
      ptr_update h.ptr fun _ _ => ?_⟩
    split <;> trivial
  | cancelUpdate t x n c hr hc =>
    obtain ⟨c₀, hc₀, rfl, hzero, hst⟩ := h.stage.cancelUpdate hr
    obtain rfl : Pool.bumped c₀.owner (-n.toInt32) c₀ = c := by simpa [hc₀] using hc
    simp only [hc₀, List.map_cons, List.map_nil, hzero, if_true, List.tail_cons]
    exact ⟨hst, by simp⟩
  | cancelUpdateDangling t x n z hr hc =>
    obtain ⟨c₀, hc₀, rfl, -⟩ := h.stage.cancelUpdate hr
    simp [hc₀] at hc

end Account

end View
end OsTransport

namespace OsTransport.PoolSys
variable {τ α κ : Type} [DecidableEq τ]

/-- The action keeps the account of `r` in the state it is taken in. -/
def Careful (r : UInt32) (s : PoolSys τ α κ) (a : Act τ α κ) : Prop :=
  ∀ m, s.Marks r a m → m.Allowed (s.view r)

omit [DecidableEq τ] in
theorem account_start (r : UInt32) : ((start : PoolSys τ α κ).view r).Account where
  stage := .settled (fun _ => rfl) (.gone rfl fun _ => rfl) fun _ => trivial
  ptr c hc := by cases hc

theorem account_step {s s' : PoolSys τ α κ} {a : Act τ α κ} {r : UInt32} (h : (s.view r).Account)
    (ht : ∀ t, Tracked s t) (hc : Careful r s a) (hs : s.step a = some s') : (s'.view r).Account := by
  obtain ⟨m, hstep, hm⟩ := view_step hs (fun t => (ht t).made) r
  exact h.step hstep (hc m hm)

end OsTransport.PoolSys
