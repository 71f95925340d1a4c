import OsTransport.Solo
import OsTransport.Verdict

/-!
# Failure cleanup as a barrier

A cancel of a request submitted once leaves none of its tasks queued or at work, and none comes back
(`cancel_drains`). `wait_and_free_sync` that has seen tasks missing cancels before it frees, so for a
request with a key of its own no task of it is left when its memory goes (`barrier`), and the memory is not
used after that, except by the last task of a receive whose wait returned 0 (`never_wild`).
-/

namespace OsTransport

namespace Pc
variable {τ α κ : Type}

/-- Inside a cancel of `r`. -/
def inCancel (r : UInt32) : Pc τ α κ → Bool
  | .cancelFind r' | .cancelRead r' _ | .cancelQueue r' .. | .cancelUpdate r' .. => r' == r
  | _ => false

theorem inCancel_of_correcting {r : UInt32} {pc : Pc τ α κ} (h : pc.correcting r = true) : pc.inCancel r = true := by
  cases pc with
  | cancelUpdate r' x n => exact h
  | _ => cases h

end Pc

namespace Pool
variable {τ α κ : Type} [DecidableEq τ] {p p' : Pool τ α κ} {t : τ} {o : Oracle} {pc pc' : Pc τ α κ}

theorem threadStep_inCancel {r : UInt32} (h : ThreadStep p t o pc p' pc') (hr : pc'.inCancel r = true) :
    pc.inCancel r = true := by
  cases h with
  | select b nodes i best minLoad hm =>
    rcases p.selectStep_cases b nodes i best minLoad with ⟨j, best', minLoad', h⟩ | ⟨w, h⟩ | h <;> rw [h] at hr
    · cases hr
    · unfold afterSelect at hr
      split at hr <;> cases hr
    · cases hr
  | create b worker nodes arg ha =>
    unfold afterCreate at hr
    split at hr
    · cases hr
    · split at hr <;> cases hr
  | cancelFindSome | cancelRead => exact hr
  | cancelQueue r' x i hm =>
    split at hr
    · exact hr
    · cases hr
  | _ => cases hr

end Pool

/-- No task of `r` is queued, or at work on a worker. -/
def Pool.Drained {τ α κ : Type} (p : Pool τ α κ) (r : UInt32) : Prop :=
  ∀ i, p.queued i r = [] ∧ (p.workers i).pc.duty r = .none

open Lts
namespace PoolSys
variable {τ α κ : Type} [DecidableEq τ]

/-- The call `w` is a cancel of `r`. -/
def EndedBy (r : UInt32) (w : τ) : Act τ α κ → Prop
  | .call u c _ => u = w → c.cancelOf r = true
  | _ => True

instance decidableEndedBy (r : UInt32) (w : τ) (a : Act τ α κ) : Decidable (EndedBy r w a) :=
  match a with
  | .call u c _ => inferInstanceAs (Decidable (u = w → c.cancelOf r = true))
  | .thread .. => .isTrue trivial
  | .worker .. => .isTrue trivial

omit [DecidableEq τ] in
theorem enter_inCancel (p : Pool τ α κ) (o : Oracle) (c : Call α κ) {r : UInt32}
    (h : (enter p o c).inCancel r = true) : c.cancelOf r = true := by
  cases c with
  | cancel r' =>
    simp only [enter] at h
    split at h
    · exact h
    · cases h
  | submitTask r' arg cb =>
    simp only [enter] at h
    split at h <;> cases h
  | submitBatch b =>
    simp only [enter] at h
    split at h
    · cases h
    split at h
    · cases h
    split at h <;> cases h
  | wakeUp r' => cases h

structure Drains (r : UInt32) (t w : τ) (s : PoolSys τ α κ) : Prop where
  solo : Solo r t s
  running : s.pool.isRunning = true
  cancels : (s.threads w).cancels r
  called : s.threads w ≠ .idle → (s.threads t).isDone = true
  drained : (s.threads w).isDone = true → s.pool.Drained r

omit [DecidableEq τ] in
theorem drains_start (r : UInt32) (t w : τ) : Drains r t w (start : PoolSys τ α κ) where
  solo := solo_start r t
  running := rfl
  cancels := trivial
  called h := absurd rfl h
  drained h := by cases h

section
variable {r : UInt32} {s s' : PoolSys τ α κ} {a : Act τ α κ}

omit [DecidableEq τ] in
theorem drained_of_nil (h : (s.view r).Account) (hno : ¬ (s.view r).Open) (hc : s.pool.ctxs r = []) :
    s.pool.Drained r := by
  intro i
  cases h.stage with
  | settled hq hres hr => exact ⟨hq i, hres.gone_of_nil hc i⟩
  | live w c d hc' => cases hc.symm.trans hc'
  | cancelling u c n hc' => cases hc.symm.trans hc'
  | window u w nodes hres hu => exact absurd ⟨u, w, nodes, hu.imp_right And.left⟩ hno

theorem drained_step (hd : s.pool.Drained r) (htr : ∀ u, Tracked s u) (hno : ¬ s.Marks r a .attach)
    (hs : s.step a = some s') : s'.pool.Drained r := by
  obtain ⟨m, hstep, hm⟩ := view_step hs (fun u => (htr u).made) r
  have hq : ∀ i, (s.view r).queued i = [] := fun i => (hd i).1
  have hduty : ∀ i, (s.view r).duty i = .none := fun i => (hd i).2
  have hsame : (s'.view r).queued = (s.view r).queued → (s'.view r).duty = (s.view r).duty → s'.pool.Drained r := by
    intro h₁ h₂ i
    exact ⟨(congrFun h₁ i).trans (hq i), (congrFun h₂ i).trans (hduty i)⟩
  generalize hv : s'.view r = v at hstep hsame
  cases hstep with
  | take i x rest hd hq' => cases (hq i).symm.trans hq'
  | found i c hd => cases (hduty i).symm.trans hd
  | missing i hd => cases (hduty i).symm.trans hd
  | dec i x c hd => cases (hduty i).symm.trans hd
  | decDangling i x d hd => cases (hduty i).symm.trans hd
  | retire i hd => cases (hduty i).symm.trans hd
  | attach u i nodes hr hd hlen => exact absurd hm hno
  | cancelQueue u x i hr hd =>
    refine hsame ?_ rfl
    rw [← hq i, Function.update_eq_self]
  | _ => exact hsame rfl rfl

theorem drained_of_return (h : (s.view r).Account) (hno : ¬ (s.view r).Open) {w : τ} {o : Oracle}
    {p : Pool τ α κ} {pc : Pc τ α κ} (hs : Pool.ThreadStep s.pool w o (s.threads w) p pc)
    (hw : (s.threads w).cancels r) (hd : pc.isDone = true) : s.pool.Drained r := by
  generalize hpc : s.threads w = pc₀ at hs hw
  have hrole : (s.view r).role w = pc₀.role r := congrArg (Pc.role r) hpc
  cases hs with
  | cancelFindSome => cases hd
  | cancelRead => cases hd
  | cancelFindNone r' hf =>
    obtain rfl : r' = r := hw
    rw [Pool.findReqContext_eq, List.head?_eq_none_iff] at hf
    exact drained_of_nil h hno hf
  | cancelQueue r' x i hm =>
    obtain rfl : r' = r := hw
    have hrole : (s.view r').role w = .cancelQueue x i := hrole.trans (if_pos rfl)
    have hduty : (s.view r').duty i = .none := duty_of_mutexFree hm r'
    cases h.stage with
    | settled hq hres hr =>
      intro j
      refine ⟨hq j, ?_⟩
      -- the worker of the context is the one whose mutex the cancel has
      by_contra hne
      obtain ⟨c, hc, hcw, -, -⟩ := hres.duty_cases (i := j) hne
      have hptr := h.ptr c (by rw [hc]; exact List.mem_singleton_self _) w
      rw [hrole] at hptr
      obtain ⟨-, rfl⟩ := hptr
      rw [← hcw] at hne
      exact hne hduty
    | live v c d hc hcw hne hn hlt hdw hq hd' hr =>
      have hptr := h.ptr c (by rw [hc]; exact List.mem_singleton_self _) w
      rw [hrole] at hptr
      obtain ⟨-, rfl⟩ := hptr
      subst hcw
      have hpos : 0 < UInt32.ofNat (s.pool.queued c.workerIdx r').length := by
        rw [UInt32.lt_iff_toNat_lt, UInt32.toNat_ofNat', Nat.mod_eq_of_lt]
        · exact List.length_pos_iff.2 hne
        · exact Nat.lt_of_le_of_lt (Nat.le_add_right _ d) hlt
      rw [if_pos hpos] at hd
      cases hd
    | cancelling u c n hc hn hu hq hd' hr => exact fun j => ⟨hq j, hd' j⟩
    | window u v nodes hres hu => exact absurd ⟨u, v, nodes, hu.imp_right And.left⟩ hno
  | cancelUpdate r' x n c hc =>
    obtain rfl : r' = r := hw
    exact h.stage.cancelUpdate_drained (hrole.trans (if_pos rfl))
  | cancelUpdateDangling r' x n hc =>
    obtain rfl : r' = r := hw
    exact h.stage.cancelUpdate_drained (hrole.trans (if_pos rfl))
  | _ => exact hw.elim

omit [DecidableEq τ] in
/-- A drained request has no context, unless a cancel is about to remove it. -/
theorem ctxs_of_drained (h : (s.view r).Account) (hno : ¬ (s.view r).Open) (hd : s.pool.Drained r)
    (hc : ∀ u, (s.threads u).correcting r = false) : s.pool.ctxs r = [] := by
  cases h.stage with
  | settled hq hres hr =>
    cases hres with
    | gone hc hd => exact hc
    | last v c hc hcw hn hdv hd' =>
      have hnone : (s.view r).duty v = .none := (hd v).2
      rcases hdv with hdv | hdv <;> cases hdv.symm.trans hnone
    | retiring v c hc hcw hdv hd' =>
      have hnone : (s.view r).duty v = .none := (hd v).2
      cases hdv.symm.trans hnone
  | live v c d hc hcw hne hn hlt hdw hq hd' hr => exact absurd (hd v).1 hne
  | cancelling u c n hc' hn hu hq hd hr =>
    have hu : (s.threads u).role r = .cancelUpdate c.owner (UInt32.ofNat n) := hu
    have hcor := hc u
    generalize s.threads u = pc at hu hcor
    cases pc with
    | cancelUpdate r' x m =>
      have hr : r' = r := by
        by_contra hne
        rw [Pc.role, if_neg hne] at hu
        cases hu
      simp [Pc.correcting, hr] at hcor
    | findCtx b | insert b | bump b =>
      by_cases hb : b.requestId = r <;> simp [Pc.role, hb] at hu
    | cancelFind r' | cancelRead r' | cancelQueue r' =>
      by_cases hb : r' = r <;> simp [Pc.role, hb] at hu
    | _ => cases hu
  | window u v nodes hres hu hlen hq hq' hr => exact absurd ⟨u, v, nodes, hu.imp_right And.left⟩ hno

omit [DecidableEq τ] in
theorem Solo.not_attach {t : τ} (h : Solo r t s) (ht : (s.threads t).isDone = true) : ¬ s.Marks r a .attach := by
  rintro ⟨u, o, b, i, nodes, -, hpc, hid⟩
  obtain rfl := h.only u b (by rw [hpc]; rfl) hid
  rw [hpc] at ht
  cases ht

end

namespace Drains
variable {r : UInt32} {t w : τ} {s s' : PoolSys τ α κ} {a : Act τ α κ}

theorem step (h : Drains r t w s) (htr : ∀ u, Tracked s u) (ha : SoloAct r t s a) (hend : EndedBy r w a) (hs : s.step a = some s') :
    Drains r t w s' := by
  have hsolo := h.solo.step htr ha hs
  have hrun := (step_flags hs).1.trans h.running
  have hdone : (s.threads t).isDone = true → (s'.threads t).isDone = true := by
    intro ht
    obtain ⟨ret, hret⟩ := Pc.isDone_iff.1 ht
    exact Pc.isDone_iff.2 ⟨ret, done_step hret hs⟩
  -- once the cancel has been called, whatever was drained stays so
  have hframe : s'.threads w = s.threads w → Drains r t w s' := by
    intro hw
    refine ⟨hsolo, hrun, hw ▸ h.cancels, fun hne => hdone (h.called (hw ▸ hne)), fun hd => ?_⟩
    rw [hw] at hd
    refine drained_step (h.drained hd) htr (h.solo.not_attach (h.called ?_)) hs
    intro hidle
    rw [hidle] at hd
    cases hd
  cases step_cases hs with
  | worker i o p hp => exact hframe rfl
  | call u c o hu =>
    rcases eq_or_ne w u with rfl | hne
    · have hc := hend rfl
      have ht := ha.2 hc
      cases c with
      | cancel r' =>
        obtain rfl : r' = r := by simpa [Call.cancelOf] using hc
        have henter : (s.setThread w (enter s.pool o (.cancel r'))).threads w = .cancelFind r' := by
          rw [setThread_threads, if_pos rfl, enter, if_pos h.running]
        refine ⟨hsolo, hrun, ?_, fun _ => hdone ht, fun hd => ?_⟩
        · rw [henter]
          rfl
        · rw [henter] at hd
          cases hd
      | _ => cases hc
    · exact hframe (by rw [setThread_threads, if_neg hne])
  | thread u o p pc hp =>
    rcases eq_or_ne w u with rfl | hne
    · have hidle : s.threads w ≠ .idle := by
        intro hidle
        rw [hidle] at hp
        cases hp
      have ht := h.called hidle
      refine ⟨hsolo, hrun, ?_, fun _ => hdone ht, fun hd => ?_⟩
      · rw [setThread_threads, if_pos rfl]
        exact Pool.cancels_threadStep hp h.cancels
      · rw [setThread_threads, if_pos rfl] at hd
        have hdr := drained_of_return h.solo.account (h.solo.not_open ht) hp h.cancels hd
        exact drained_step hdr htr (h.solo.not_attach ht) hs
    · exact hframe (by rw [setThread_threads, if_neg hne])

omit [DecidableEq τ] in
theorem ctxs_nil (h : Drains r t w s) (hd : (s.threads w).isDone = true)
    (hc : ∀ u, (s.threads u).correcting r = false) : s.pool.ctxs r = [] := by
  refine ctxs_of_drained h.solo.account (h.solo.not_open (h.called ?_)) (h.drained hd) hc
  intro hidle
  rw [hidle] at hd
  cases hd

end Drains

/-- Once a cancel of the request has returned no task of it is queued, at work or executed any more, whatever else
runs; and its context is gone unless another cancel is about to remove it. -/
theorem cancel_drains {r : UInt32} {t w : τ} {s : PoolSys τ α κ} {xs : List (Act τ α κ × Tenant τ)}
    (ha : Along memStep (fun s x => (SoloAct r t s x.1 ∧ EndedBy r w x.1) ∧ OthersSound r s x) start xs)
    (he : exec memStep start xs = some s) (hw : (s.threads w).isDone = true) :
    s.pool.Drained r ∧ ((∀ u, (s.threads u).correcting r = false) → s.pool.ctxs r = []) := by
  obtain ⟨he, ha⟩ := exec_solo (C := fun s a => SoloAct r t s a ∧ EndedBy r w a) (fun _ _ => And.left) ha he
  have hinv := exec_inv (I := fun s : PoolSys τ α κ => (∀ u, Tracked s u) ∧ Drains r t w s)
    (fun s a s' hi ha hs => ⟨tracked_step hi.1 hs, hi.2.step hi.1 ha.1 ha.2 hs⟩)
    ⟨tracked_start, drains_start r t w⟩ ha he
  exact ⟨hinv.2.drained hw, hinv.2.ctxs_nil hw⟩

/-- The run of `clearedEnd` to the return of the cancel. -/
def drainedEnd : PoolSys (Fin 3) Unit Unit := last PoolSys.step start (clearedRun ++ [.thread 2 {}]) (by decide +kernel)

theorem clearedEnd_drains : drainedEnd.pool.Drained 7 ∧
    ((∀ u, (drainedEnd.threads u).correcting 7 = false) → drainedEnd.pool.ctxs 7 = []) :=
  have hrun : exec memStep start (quiet (clearedRun ++ [.thread 2 {}])) = some drainedEnd :=
    (exec_quiet (by decide +kernel)).2 (exec_last _)
  cancel_drains (t := 0) (w := 2) (by decide +kernel) hrun (by decide +kernel)

end PoolSys

/-! ### The request of a transport -/

namespace Sys
open Progress
variable {ρ ψ : Type} [DecidableEq ρ] [DecidableEq ψ] {args : ρ → Request} {s s' : Sys ρ ψ} {q : ρ}

/-- The pool of the handle gets memory for the context of request `q`. -/
def GetsContext (args : ρ → Request) (q : ρ) (s : Sys ρ ψ) : Action ρ ψ → Prop
  | .caller q' o => q' = q → (s.pool.threads (.caller q)).inserts (args q).key = true → o.ok = true
  | _ => True

instance decidableGetsContext (q : ρ) (s : Sys ρ ψ) (act : Action ρ ψ) : Decidable (GetsContext args q s act) :=
  match act with
  | .caller q' o => inferInstanceAs (Decidable (q' = q →
      (s.pool.threads (.caller q)).inserts (args q).key = true → o.ok = true))
  | .call .. | .wait .. | .waiter .. | .wakeUpTask .. | .poller .. | .worker .. => .isTrue trivial

/-- No other request uses the key of `q`. -/
def OwnKey (args : ρ → Request) (q : ρ) : Prop := ∀ q', (args q').key = (args q).key → q' = q

/-- Only `wait_and_free_sync` cancels, each time the key of its request. -/
def CancelsOwn (args : ρ → Request) (s : Sys ρ ψ) : Prop :=
  ∀ u r, (s.pool.threads u).inCancel r = true → ∃ q, u = .waiter q ∧ (args q).key = r

abbrev KeyDrains (args : ρ → Request) (q : ρ) (s : Sys ρ ψ) : Prop :=
  PoolSys.Drains (args q).key (.caller q) (.waiter q) s.pool

/-- The pool sees a request submitted once and cancelled by its own wait. -/
theorem keyDrains_step {act : Action ρ ψ} (h : KeyDrains args q s) (hl : Linked args s) (hq : OwnKey args q)
    (ha : GetsContext args q s act) (hs : step args s act = some s') : KeyDrains args q s' := by
  have hstep : ∀ {pa : Act (Tid ρ ψ) (TaskArg ρ) Empty} {p x pc}, s.pool.step pa = some p →
      PoolSys.SoloAct (args q).key (.caller q) s.pool pa → PoolSys.EndedBy (args q).key (.waiter q) pa →
      KeyDrains args q (⟨p, x, pc⟩ : Sys ρ ψ) := fun hp h₁ h₂ => h.step hl.tracked h₁ h₂ hp
  cases step_cases hs with
  | register q₀ o p hc hlen hlt ho hp =>
    refine hstep hp ⟨fun b hb hid => ?_, by simp [Call.cancelOf]⟩ ?_
    · obtain ⟨b', hv, hsub⟩ := Request.validate_batch (Request.taskArgs_ne (q := q₀) hlen hlt)
      obtain rfl : b = b' := Option.some.inj (hb.symm.trans hv)
      rw [hq q₀ (hsub.requestId.symm.trans hid)]
    · rintro ⟨⟩
  | submit q₀ o p hc hp =>
    refine hstep hp (fun hq₀ hins => ?_) trivial
    cases hq₀
    exact ha rfl hins
  | cancel q₀ o p hw he hp =>
    refine hstep hp ⟨fun b hb => (by cases hb), fun hkey => ?_⟩ fun hq₀ => ?_
    · -- the call has returned a handle
      obtain rfl := hq q₀ (by simpa [Call.cancelOf] using hkey)
      obtain ⟨ok, hok⟩ := (hl.request q₀).waited.resolve_left (by rw [hw]; simp)
      have hcaller := (hl.request q₀).caller
      rw [hok] at hcaller
      obtain ⟨-, ids, hids⟩ := hcaller
      rw [hids]
      rfl
    · cases hq₀
      simp [Call.cancelOf]
  | cancelling q₀ o p hw hp => exact hstep hp (fun hq₀ => by cases hq₀) trivial
  | wakeUpTask k cr o r p hr hp =>
    exact hstep hp ⟨fun b hb => (by cases hb), fun hc => (by cases hc)⟩ fun hq₀ => by cases hq₀
  | poller k o p hp => exact hstep hp (fun hq₀ => by cases hq₀) trivial
  | worker i o p hpc hp => exact hstep hp trivial trivial
  | leave i o task q₀ x p hpc hq₀ hle hp => exact hstep hp trivial trivial
  | _ => exact h

theorem cancelsOwn_step {act : Action ρ ψ} (h : CancelsOwn args s) (hs : step args s act = some s') :
    CancelsOwn args s' := by
  have hcall : ∀ {t : Tid ρ ψ} {c o p}, s.pool.step (.call t c o) = some p →
      (∀ r, c.cancelOf r = true → ∃ q, t = .waiter q ∧ (args q).key = r) →
      ∀ u r, (p.threads u).inCancel r = true → ∃ q, u = .waiter q ∧ (args q).key = r := by
    intro t c o p hp hc u r hu
    rcases eq_or_ne u t with rfl | hne
    · rw [(PoolSys.call_threads hp).2] at hu
      exact hc r (PoolSys.enter_inCancel _ _ _ hu)
    · rw [PoolSys.threads_of_ne hp (by simpa [Act.tid?] using hne.symm)] at hu
      exact h u r hu
  have hthread : ∀ {t : Tid ρ ψ} {o p}, s.pool.step (.thread t o) = some p →
      ∀ u r, (p.threads u).inCancel r = true → ∃ q, u = .waiter q ∧ (args q).key = r := by
    intro t o p hp u r hu
    rcases eq_or_ne u t with rfl | hne
    · exact h u r (Pool.threadStep_inCancel (PoolSys.thread_threads hp) hu)
    · rw [PoolSys.threads_of_ne hp (by simpa [Act.tid?] using hne.symm)] at hu
      exact h u r hu
  have hworker : ∀ {i o p}, s.pool.step (.worker i o) = some p →
      ∀ u r, (p.threads u).inCancel r = true → ∃ q, u = .waiter q ∧ (args q).key = r := by
    intro i o p hp u r hu
    rw [PoolSys.threads_of_ne hp (by simp [Act.tid?])] at hu
    exact h u r hu
  cases step_cases hs with
  | register q₀ o p hc hlen hlt ho hp => exact hcall hp fun r hc => by cases hc
  | submit q₀ o p hc hp => exact hthread hp
  | cancel q₀ o p hw he hp => exact hcall hp fun r hc => ⟨q₀, rfl, by simpa [Call.cancelOf] using hc⟩
  | cancelling q₀ o p hw hp => exact hthread hp
  | wakeUpTask k cr o r p hr hp => exact hcall hp fun r hc => by cases hc
  | poller k o p hp => exact hthread hp
  | worker i o p hpc hp => exact hworker hp
  | leave i o task q₀ x p hpc hq₀ hle hp => exact hworker hp
  | _ => exact h

theorem Linked.cancel_returned (hl : Linked args s)
    (hw : (s.transfers q).waiter = .freeing false ∨ (s.transfers q).waiter = .returned false) :
    (s.pool.threads (.waiter q)).isDone = true := by
  have hlink := (hl.request q).waiter
  rcases hw with hw | hw
  all_goals
    rw [hw] at hlink
    obtain ⟨n, hn⟩ := hlink
    rw [hn]
    rfl

theorem run_none_of_drained (hl : Linked args s) (hd : s.pool.pool.Drained (args q).key) (i : Fin 64) :
    (s.progress q).run i = none := by
  refine run_eq_none.2 fun task hpc ho => ?_
  obtain ⟨q', ho', hid, -⟩ := hl.task (.inr hpc)
  obtain rfl : q = q' := Tid.caller.inj (ho.symm.trans ho')
  have hduty := (hd i).2
  rw [hpc] at hduty
  simp [WorkerPc.duty, hid] at hduty

end Sys

/-! ### The memory of the request after the release -/

namespace Progress
variable {ρ ψ : Type} {a : Request} {q : ρ} {act : Action ρ ψ} {v v' : Progress ρ ψ}
open Function (update update_self update_of_ne)

/-- A task of a send is done with its request when it has counted its chunk. -/
def SendPcs (v : Progress ρ ψ) : Prop :=
  ∀ i task pc, v.run i = some (task, pc) → pc = .issue ∨ ∃ ok, pc = .mark ok

theorem SendPcs.step (h : SendPcs v) (hm : Move a q v act v')
    (hinfo : ∀ i task pc, v.run i = some (task, pc) → ∃ info, task.taskArg.userArg.info = .write info) :
    SendPcs v' := by
  intro i task pc hi
  cases hm with
  | take j o task' hr =>
    replace hi : update v.run j (some (task', .issue)) i = some (task, pc) := hi
    rcases eq_or_ne i j with rfl | hij
    · rw [update_self] at hi
      cases hi
      exact .inl rfl
    · rw [update_of_ne hij] at hi
      exact h i task pc hi
  | stay j o task' pc₀ pc' x hr hs =>
    replace hi : update v.run j (some (task', pc')) i = some (task, pc) := hi
    rcases eq_or_ne i j with rfl | hij
    · rw [update_self] at hi
      cases hi
      cases hs with
      | issue hf => exact .inr ⟨_, rfl⟩
      | mark ok r hr' hf =>
        obtain ⟨info, hw⟩ := hinfo i task _ hr
        cases hr'.symm.trans hw
      | last hl hf => rcases h i task _ hr with hpc | ⟨ok, hpc⟩ <;> cases hpc
      | stream hf => rcases h i task _ hr with hpc | ⟨ok, hpc⟩ <;> cases hpc
      | event hf => rcases h i task _ hr with hpc | ⟨ok, hpc⟩ <;> cases hpc
    · rw [update_of_ne hij] at hi
      exact h i task pc hi
  | leave j o task' pc₀ x hr hl =>
    replace hi : update v.run j none i = some (task, pc) := hi
    rcases eq_or_ne i j with rfl | hij
    · rw [update_self] at hi
      cases hi
    · rw [update_of_ne hij] at hi
      exact h i task pc hi
  | _ => exact h i task pc hi

/-- Where an access to freed memory comes from. -/
theorem Move.accesses (hm : Move a q v act v') (op : Op) (hop : op ∈ v'.transfer.ops) :
    op ∈ v.transfer.ops ∨ (∀ c, op ≠ .wild c ∧ op ≠ .stale c) ∨
      v.transfer.freed = true ∧ ∃ i task pc, v.run i = some (task, pc) ∧ (pc = .issue ∨ ∀ c, op ≠ .wild c) := by
  have hsnoc : ∀ {op' : Op}, op ∈ v.transfer.ops ++ [op'] → (∀ c, op' ≠ .wild c ∧ op' ≠ .stale c) →
      op ∈ v.transfer.ops ∨ (∀ c, op ≠ .wild c ∧ op ≠ .stale c) := by
    intro op' h hne
    rcases List.mem_append.1 h with h | h
    · exact .inl h
    · obtain rfl := List.mem_singleton.1 h
      exact .inr hne
  cases hm with
  | single o hc => exact (hsnoc hop (by simp)).imp_right .inl
  | firstPost o i hc => exact (hsnoc hop (by simp)).imp_right .inl
  | stay i o task pc pc' x hr hs =>
    cases hs with
    | issue hf =>
      refine (hsnoc hop ?_).imp_right .inl
      intro c
      unfold Sys.issueOp
      cases task.taskArg.userArg.info <;> simp
    | _ => exact .inl hop
  | leave i o task pc x hr hl =>
    cases hl with
    | record => exact (hsnoc hop (by simp)).imp_right .inl
    | wild hf => exact .inr (.inr ⟨hf, i, task, .issue, hr, .inl rfl⟩)
    | stale pc hpc hf =>
      rcases List.mem_append.1 hop with hop | hop
      · exact .inl hop
      · obtain rfl := List.mem_singleton.1 hop
        exact .inr (.inr ⟨hf, i, task, pc, hr, .inr (by simp)⟩)
    | _ => exact .inl hop
  | _ => exact .inl hop

end Progress

namespace Sys
open Progress
variable {ρ ψ : Type} [DecidableEq ρ] [DecidableEq ψ] {args : ρ → Request} {s s' : Sys ρ ψ} {q : ρ}

theorem write_of_send (hl : Linked args s) (ht : (args q).type = .send) {i : Fin 64}
    {task : ThreadPoolTask (Tid ρ ψ) (TaskArg ρ) Empty} {pc : TaskPc} (hi : (s.progress q).run i = some (task, pc)) :
    ∃ info, task.taskArg.userArg.info = .write info := by
  obtain ⟨hpc, ho, -⟩ := run_eq_some.1 hi
  obtain ⟨q', ho', -, harg, -⟩ := hl.task (.inr hpc)
  obtain rfl : q = q' := Tid.caller.inj (ho.symm.trans ho')
  unfold Request.taskArgs at harg
  rw [ht] at harg
  obtain ⟨k, -, hk⟩ := List.mem_map.1 harg
  exact ⟨_, congrArg TaskArg.info hk.symm⟩

/-- What a request has come to when its wait has seen all tasks completed: those that still run have been counted. -/
structure Quiet (args : ρ → Request) (q : ρ) (s : Sys ρ ψ) : Prop where
  send : (args q).type = .send → SendPcs (s.progress q)
  marked : Paid (s.transfers q) → ∀ i task pc, (s.progress q).run i = some (task, pc) → pc ≠ .issue ∧ ∀ ok, pc ≠ .mark ok

theorem quiet_step {act : Action ρ ψ} (h : Quiet args q s) (hl : Linked args s)
    (hv : Verdict (args q) q (s.progress q)) (hv' : Verdict (args q) q (s'.progress q))
    (ht' : (s'.progress q).Traced) (hs : step args s act = some s') : Quiet args q s' := by
  have hm := move hl hs q
  refine ⟨fun htype => (h.send htype).step hm fun i task pc hi => write_of_send hl htype hi, fun hp i task pc hi => ?_⟩
  have hmarked := h.marked
  -- a wait that has seen all tasks completed leaves none to be issued
  have hnew : ∀ task, (s'.progress q).run i ≠ some (task, .issue) := by
    refine not_issue (hl.step hs) ht' ?_ i
    rw [show issues (s'.transfers q) = _ from hv'.paid hp, List.length_map]
  have hlt : ∀ {i x}, (s.progress q).run i = some x →
      (s.progress q).returned.length < (s.progress q).transfer.sync.totalTasks := fun hi => hl.returned_lt hi
  have hle : (s.progress q).transfer.freed = false →
      (issues (s.progress q).transfer).length ≤ ((args q).taskArgs q).length := fun hf => hl.issues_le (hv.sound hf)
  have htotal : ∀ {i x}, (s.progress q).run i = some x →
      (s.progress q).transfer.sync.totalTasks = ((args q).taskArgs q).length := fun hi => hl.total (hl.accepted_of_run hi)
  replace hmarked : Paid (s.progress q).transfer → ∀ i task pc, (s.progress q).run i = some (task, pc) →
      pc ≠ .issue ∧ ∀ ok, pc ≠ .mark ok := hmarked
  replace hp : Paid (s'.progress q).transfer := hp
  clear hv' ht' hs hl h
  generalize s.progress q = v at *
  generalize s'.progress q = v' at *
  cases hm with
  | success o hw he =>
    replace hi : v.run i = some (task, pc) := hi
    have hf : v.transfer.freed = false := by
      refine Bool.eq_false_iff.2 fun hf => ?_
      obtain ⟨ok, hok⟩ := hv.freed hf
      cases hw.symm.trans hok
    have hsound := hv.sound hf
    have hbusy := hsound.busy i task pc hi
    have hlen := congrArg List.length (hsound.ops.busy i task pc hi)
    rw [List.length_map, List.length_append, ← List.map_eq_flatMap, List.length_map] at hlen
    have hcount := List.countP_le_length (p := good) (l := issues v.transfer)
    have hlt := hlt hi
    have hle := hle hf
    have htotal := htotal hi
    constructor
    · rintro rfl
      simp only [started, if_true, List.map_nil, List.length_nil, owed] at hlen hbusy
      omega
    · rintro ok rfl
      cases ok with
      | true =>
        simp only [owed] at hbusy
        omega
      | false =>
        obtain ⟨op, hop, hg⟩ := hsound.bad i task hi
        have hne : (issues v.transfer).countP good ≠ (issues v.transfer).length := by
          intro hall
          have := List.countP_eq_length.1 hall op hop
          rw [hg] at this
          cases this
        simp only [owed] at hbusy
        omega
  | take j o task' hr =>
    replace hi : Function.update v.run j (some (task', .issue)) i = some (task, pc) := hi
    rcases eq_or_ne i j with rfl | hij
    · exact absurd (Function.update_self ..) (hnew task')
    · rw [Function.update_of_ne hij] at hi
      exact hmarked hp i task pc hi
  | stay j o task' pc₀ pc' x hr hs =>
    have hp₀ : Paid v.transfer := hp.imp hs.frame.2.1.symm.trans hs.frame.2.1.symm.trans
    replace hi : Function.update v.run j (some (task', pc')) i = some (task, pc) := hi
    rcases eq_or_ne i j with rfl | hij
    · rw [Function.update_self] at hi
      cases hi
      obtain ⟨hissue, hmark⟩ := hmarked hp₀ i task pc₀ hr
      cases hs with
      | issue hf => exact absurd rfl hissue
      | mark ok r hr' hf => exact absurd rfl (hmark ok)
      | _ => simp
    · rw [Function.update_of_ne hij] at hi
      exact hmarked hp₀ i task pc hi
  | leave j o task' pc₀ x hr hl =>
    have hp₀ : Paid v.transfer := hp.imp hl.frame.2.1.symm.trans hl.frame.2.1.symm.trans
    replace hi : Function.update v.run j none i = some (task, pc) := hi
    rcases eq_or_ne i j with rfl | hij
    · rw [Function.update_self] at hi
      cases hi
    · rw [Function.update_of_ne hij] at hi
      exact hmarked hp₀ i task pc hi
  | free o ok hw =>
    refine hmarked (.inl ?_) i task pc hi
    rcases hp with hp | hp <;> cases hp
    exact hw
  | wait | wake | cancel | cancelled => rcases hp with hp | hp <;> cases hp
  | _ => exact hmarked hp i task pc hi

/-- The accesses of a request to freed memory. -/
structure Safe (args : ρ → Request) (q : ρ) (s : Sys ρ ψ) : Prop where
  wild : ∀ c, .wild c ∉ (s.transfers q).ops
  stale : ∀ c, .stale c ∈ (s.transfers q).ops → (args q).type = .recv ∧ (s.transfers q).waiter = .returned true

/-- A task that runs after the release belongs to a receive whose wait has returned 0, and has copied its chunk. -/
theorem Linked.late (hl : Linked args s) (hv : Verdict (args q) q (s.progress q))
    (hquiet : Quiet args q s) (hd : KeyDrains args q s) (hf : (s.transfers q).freed = true) {i : Fin 64}
    {task : ThreadPoolTask (Tid ρ ψ) (TaskArg ρ) Empty} {pc : TaskPc} (hi : (s.progress q).run i = some (task, pc)) :
    (pc ≠ .issue ∧ ∀ ok, pc ≠ .mark ok) ∧ (args q).type = .recv ∧ (s.transfers q).waiter = .returned true := by
  obtain ⟨ok, hok⟩ := hv.freed hf
  cases ok with
  | false =>
    have hdone := hl.cancel_returned (.inr hok)
    cases hi.symm.trans (run_none_of_drained hl (hd.drained hdone) i)
  | true =>
    have hpast := hquiet.marked (.inr hok) i task pc hi
    refine ⟨hpast, ?_, hok⟩
    cases htype : (args q).type with
    | send =>
      rcases hquiet.send htype i task pc hi with hpc | ⟨ok, hpc⟩
      · exact absurd hpc hpast.1
      · exact absurd hpc (hpast.2 ok)
    | recv => rfl

theorem safe_step {act : Action ρ ψ} (h : Safe args q s) (hl : Linked args s) (hv : Verdict (args q) q (s.progress q))
    (hquiet : Quiet args q s) (hd : KeyDrains args q s) (hs : step args s act = some s') : Safe args q s' := by
  have hm := move hl hs q
  constructor
  · intro c hc
    rcases hm.accesses (.wild c) hc with hop | hne | ⟨hf, i, task, pc, hi, hpc⟩
    · exact h.wild c hop
    · exact (hne c).1 rfl
    · rcases hpc with hpc | hpc
      · exact (hl.late hv hquiet hd hf hi).1.1 hpc
      · exact hpc c rfl
  · intro c hc
    rcases hm.accesses (.stale c) hc with hop | hne | ⟨hf, i, task, pc, hi, -⟩
    · obtain ⟨htype, hw⟩ := h.stale c hop
      exact ⟨htype, hm.waiter_returned hw⟩
    · exact absurd rfl (hne c).2
    · obtain ⟨-, htype, hw⟩ := hl.late hv hquiet hd hf hi
      exact ⟨htype, hm.waiter_returned hw⟩

/-- What holds of a request with a key of its own. -/
structure Kept (args : ρ → Request) (q : ρ) (s : Sys ρ ψ) : Prop where
  linked : Linked args s
  traced : (s.progress q).Traced
  fresh : Fresh q s
  verdict : Verdict (args q) q (s.progress q)
  quiet : Quiet args q s
  drains : KeyDrains args q s
  cancels : CancelsOwn args s
  safe : Safe args q s

theorem kept_start (q : ρ) : Kept args q (start : Sys ρ ψ) := by
  refine ⟨linked_start, traced_start, fun _ => rfl, verdict_start q, ?_, PoolSys.drains_start _ _ _,
    fun u r hu => (by cases hu), ?_⟩
  · refine ⟨fun _ i task pc hi => (by cases hi), fun hp => ?_⟩
    rcases hp with hp | hp <;> cases hp
  · refine ⟨fun c hc => ?_, fun c hc => ?_⟩ <;> cases hc

theorem Kept.step {act : Action ρ ψ} (h : Kept args q s) (hq : OwnKey args q) (ha : GetsContext args q s act)
    (hs : step args s act = some s') : Kept args q s' := by
  have hl' := h.linked.step hs
  have ht' := h.traced.step (h.linked.single q) (hl'.single q) (move h.linked hs q)
  have hv' := verdict_step h.verdict h.linked h.traced h.fresh hs
  exact ⟨hl', ht', fresh_step h.fresh h.linked hs, hv',
    quiet_step h.quiet h.linked h.verdict hv' ht' hs, keyDrains_step h.drains h.linked hq ha hs,
    cancelsOwn_step h.cancels hs,
    safe_step h.safe h.linked h.verdict h.quiet h.drains hs⟩

/-! ### In memory -/

section
variable {x : Action ρ ψ × Found ρ ψ} {xs : List (Action ρ ψ × Found ρ ψ)}

theorem Kept.not_misuse (h : Kept args q s) {a : Action ρ ψ} : s.misuse a ≠ some q := by
  intro hm
  unfold misuse at hm
  have hlate : ∀ {i : Fin 64} {task : ThreadPoolTask (Tid ρ ψ) (TaskArg ρ) Empty},
      (s.pool.pool.workers i).pc = .func task → (s.transfers task.taskArg.userArg.sync).freed = true →
      task.taskArg.userArg.sync = q → s.taskPc i ≠ .issue ∧ ∀ ok, s.taskPc i ≠ .mark ok := by
    intro i task hpc hf hq
    obtain ⟨q', hown, -, hmem, -⟩ := h.linked.task (.inr hpc)
    obtain rfl : q' = q := (sync_of_mem hmem).symm.trans hq
    rw [hq] at hf
    exact (h.linked.late h.verdict h.quiet h.drains hf (run_eq_some.2 ⟨hpc, hown, rfl⟩)).1
  split at hm
  swap
  · cases hm
  split at hm
  · rename_i i o task hpc htask
    split at hm
    · rename_i hf
      exact (hlate hpc hf (Option.some.inj hm)).1 htask
    · cases hm
  · rename_i i o task ok hpc htask
    split at hm
    · rename_i hf
      exact (hlate hpc hf (Option.some.inj hm)).2 ok htask
    · cases hm
  · cases hm

theorem Kept.noMisuse (h : Kept args q s) (hx : OthersSound args q s x) : NoMisuse s x := by
  refine ⟨Option.eq_none_iff_forall_ne_some.2 fun e he => ?_, Option.eq_none_iff_forall_ne_some.2 fun q' hq' => ?_⟩
  · obtain ⟨a, -, hs⟩ := Option.bind_eq_some_iff.1 he
    exact h.drains.solo.not_stray hs (hx.1 e he)
  · exact h.not_misuse (hx.2 q' hq' ▸ hq')

/-- A run in memory in which no other request uses freed memory keeps what holds of the request. -/
theorem kept (hq : OwnKey args q)
    (ha : Along (memStep args) (fun s x => GetsContext args q s x.1 ∧ OthersSound args q s x) start xs)
    (h : exec (memStep args) start xs = some s) :
    Kept args q s ∧ Along (memStep args) (fun s x => s.misuse x.1 ≠ some q) start xs := by
  have hstep : ∀ (u : Sys ρ ψ) x u', Kept args q u → GetsContext args q u x.1 ∧ OthersSound args q u x →
      memStep args u x = some u' → Kept args q u' := fun u x u' hi hx hs => by
    rw [memStep_of_noMisuse (hi.noMisuse hx.2)] at hs
    exact hi.step hq hx.1 hs
  exact ⟨exec_inv hstep (kept_start q) ha h, Along.of_inv hstep (fun _ _ hi _ => hi.not_misuse) (kept_start q) ha⟩

/-- `wait_and_free_sync` that has seen tasks missing frees a request none of whose tasks is queued or at work, and
none of them ever is again; nor is there a context for its key. -/
theorem barrier (hq : OwnKey args q)
    (ha : Along (memStep args) (fun s x => GetsContext args q s x.1 ∧ OthersSound args q s x) start xs)
    (h : exec (memStep args) start xs = some s)
    (hw : (s.transfers q).waiter = .freeing false ∨ (s.transfers q).waiter = .returned false) :
    s.pool.pool.Drained (args q).key ∧ s.pool.pool.ctxs (args q).key = [] := by
  obtain ⟨hkept, -⟩ := kept hq ha h
  have hdone := hkept.linked.cancel_returned hw
  refine ⟨hkept.drains.drained hdone, hkept.drains.ctxs_nil hdone fun u => ?_⟩
  by_contra hcor
  have hin := Pc.inCancel_of_correcting (by simpa using hcor)
  obtain ⟨q', rfl, hkey⟩ := hkept.cancels u _ hin
  obtain rfl := hq q' hkey
  obtain ⟨ret, hret⟩ := Pc.isDone_iff.1 hdone
  rw [hret] at hin
  cases hin

end

/-! ### A send whose first post fails -/

/-- The caller's post of `twoChunks` fails; the wait sees it and cancels the task of chunk 1. -/
def postFailed : List (Action (Fin 1) (Fin 1)) :=
  .call 0 {} :: List.replicate 6 (.caller 0 {}) ++ [.caller 0 { ok := false }, .caller 0 {}, .wait 0] ++
    List.replicate 8 (.waiter 0 {})

def postFailedEnd : Sys (Fin 1) (Fin 1) := last (step twoChunks) start postFailed (by decide +kernel)

theorem twoChunks_ownKey : OwnKey twoChunks 0 := fun q' _ => Subsingleton.elim q' 0

theorem postFailed_barrier : postFailedEnd.pool.pool.Drained (twoChunks 0).key ∧
    postFailedEnd.pool.pool.ctxs (twoChunks 0).key = [] :=
  have hrun : exec (memStep twoChunks) start (quiet postFailed) = some postFailedEnd :=
    (exec_quiet (by decide +kernel)).2 (exec_last _)
  barrier (q := 0) twoChunks_ownKey (by decide +kernel) hrun (by decide +kernel)

end Sys
end OsTransport
