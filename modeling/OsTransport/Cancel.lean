import OsTransport.Ledger

/-!
# Cancelling a request

`Finished s t c s'` is an operation carried out to its end whose allocations may fail, `Reached` what any
sequence of them leads to. A cancel alone on such a pool is one of the three cases of `Cancelled`: it looks
at the worker of the first context only, so it is exact (`CancelExact`) just when all tasks of the request
are there and the context counts them.
-/

namespace OsTransport

open Lts
namespace PoolSys
variable {τ α κ : Type} [DecidableEq τ]

/-! ### Operations whose allocations may fail -/

/-- A section of call `t` or of a worker. -/
def SectionOf (t : τ) : Act τ α κ → Prop
  | .call .. => False
  | .thread u _ => u = t
  | .worker .. => True

/-- The operation `c` is carried out from `s` to its end, as call `t`. -/
structure Finished (s : PoolSys τ α κ) (t : τ) (c : Call α κ) (s' : PoolSys τ α κ) : Prop where
  run : ∃ o as, (∀ a ∈ as, SectionOf t a) ∧ exec PoolSys.step s (.call t c o :: as) = some s'
  quiet : Quiet s'

/-- What a sequence of operations leads to. -/
inductive Reached : PoolSys τ α κ → Prop
  | start : Reached start
  | next {s s' : PoolSys τ α κ} {t : τ} {c : Call α κ} (h : Reached s) (hop : Finished s t c s') : Reached s'

/-- A submission on its way to a worker has found one with an empty queue. -/
def Aimed (p₀ p : Pool τ α κ) : Pc τ α κ → Prop
  | .select _ _ _ best _ => best = none ∧ p.workers = p₀.workers
  | .create _ w _ => (∀ i, w = some i → Selectable p₀ i) ∧ p.workers = p₀.workers
  | .attach _ i _ => Selectable p₀ i ∧ p.workers = p₀.workers
  | _ => True

omit [DecidableEq τ] in
theorem enter_aimed (p : Pool τ α κ) (o : Oracle) (c : Call α κ) : Aimed p p (enter p o c) := by
  cases c with
  | submitTask r arg cb =>
    simp only [enter]
    split
    · exact ⟨fun i hi => (by cases hi), rfl⟩
    · trivial
  | submitBatch b =>
    simp only [enter]
    split
    · trivial
    split
    · trivial
    split
    · exact ⟨rfl, rfl⟩
    · trivial
  | wakeUp r => trivial
  | cancel r =>
    simp only [enter]
    split <;> trivial

theorem Aimed.thread {p₀ p p' : Pool τ α κ} {t : τ} {o : Oracle} {pc pc' : Pc τ α κ} (h₀ : p₀.Idle)
    (h : Aimed p₀ p pc) (hs : Pool.ThreadStep p t o pc p' pc') : Aimed p₀ p' pc' := by
  cases hs with
  | select b nodes i best minLoad hm =>
    obtain ⟨rfl, hw⟩ := h
    have hidle : p.Idle := fun j => by rw [hw]; exact h₀ j
    rcases selectStep_idle hidle b nodes i minLoad with ⟨hq, hs⟩ | ⟨-, ⟨hi, hs⟩ | ⟨-, hs⟩⟩ <;> rw [hs]
    · have hsel : Selectable p₀ i := by rw [Selectable, ← hw]; exact hq
      unfold Pool.afterSelect
      split
      · exact ⟨fun j hj => by cases hj; exact hsel, hw⟩
      · exact ⟨hsel, hw⟩
    · exact ⟨rfl, hw⟩
    · trivial
  | create b w nodes arg ha =>
    obtain ⟨hsel, hw⟩ := h
    unfold Pool.afterCreate
    split
    · exact ⟨hsel, hw⟩
    split
    · exact ⟨hsel _ rfl, hw⟩
    · exact ⟨rfl, hw⟩
  | cancelQueue => split <;> trivial
  | _ => trivial

/-- Inside an operation, started on the idle pool of `s₀` as call `t`. -/
structure Underway (s₀ : PoolSys τ α κ) (t : τ) (s : PoolSys τ α κ) : Prop where
  aimed : Aimed s₀.pool s.pool (s.threads t)
  alive : s.pool.isDestroying = false
  tracked : ∀ u, Tracked s u
  sized : s.pool.Sized

theorem Underway.step {s₀ s s' : PoolSys τ α κ} {t : τ} {a : Act τ α κ} (h₀ : s₀.pool.Idle)
    (h : Underway s₀ t s) (ha : SectionOf t a) (hs : s.step a = some s') : Underway s₀ t s' := by
  have htracked := tracked_step h.tracked hs
  have halive := (step_flags hs).2.trans h.alive
  cases step_cases hs with
  | call u c o hu => exact ha.elim
  | worker i o p hp =>
    refine ⟨?_, halive, htracked, h.sized.workerStep hp⟩
    have haim := h.aimed
    -- the workers are as they were while the call is on its way, and so they change nothing
    have hsame : s.pool.workers = s₀.pool.workers → p = s.pool := fun hw =>
      idle_workerStep (fun j => by rw [hw]; exact h₀ j) h.alive hp
    change Aimed s₀.pool p (s.threads t)
    generalize s.threads t = pc at haim
    cases pc with
    | select => rw [hsame haim.2]; exact haim
    | create => rw [hsame haim.2]; exact haim
    | attach => rw [hsame haim.2]; exact haim
    | _ => trivial
  | thread u o p pc hp =>
    obtain rfl : u = t := ha
    refine ⟨?_, halive, htracked, ?_⟩
    · rw [setThread_threads, if_pos rfl]
      exact h.aimed.thread h₀ hp
    · refine h.sized.threadStep hp (h.tracked u).made fun b i nodes hpc => ?_
      have haim := h.aimed
      rw [hpc] at haim
      rw [haim.2]; exact haim.1

theorem Ready.finished {s s' : PoolSys τ α κ} {t : τ} {c : Call α κ} (h : Ready s) (hop : Finished s t c s') :
    Ready s' := by
  obtain ⟨⟨o, as, has, he⟩, hquiet⟩ := hop
  obtain ⟨hrunning, halive⟩ := exec_flags he
  obtain ⟨s₁, hcall, he⟩ := exec_cons.1 he
  have hstart : Underway s t s₁ := by
    have htracked := tracked_step h.tracked hcall
    cases step_cases hcall with
    | call u c o hu =>
      refine ⟨?_, h.alive, htracked, h.sized⟩
      rw [setThread_threads, if_pos rfl]
      exact enter_aimed s.pool o c
  have hend := exec_inv (I := Underway s t)
    (fun u a u' hi ha (hs : PoolSys.step u a = some u') => hi.step h.quiet.workers ha hs) hstart
    (Along.of_forall has) he
  exact ⟨hquiet, hrunning.trans h.running, halive.trans h.alive, hend.tracked, hend.sized⟩

theorem Reached.ready {s : PoolSys τ α κ} (h : Reached s) : Ready s := by
  induction h with
  | start => exact Tidy.start.ready
  | next h hop ih => exact ih.finished hop

/-! ### A cancel on an idle pool -/

/-- The tasks of request `r` on worker `i` were unlinked. -/
def Unlinked (p₀ p : Pool τ α κ) (i : Fin 64) (r : UInt32) : Prop :=
  ∃ size, p.workers = Function.update p₀.workers i { p₀.workers i with
    queue := (p₀.workers i).queue.filter (fun task => !(task.requestId == r)), queueSize := size }

/-- What a cancel of `r`, run alone on the idle pool `p₀`, makes of it: there is no context, or no task on
the worker of the first context, or the tasks there are unlinked and counted off. -/
inductive Cancelled (p₀ : Pool τ α κ) (r : UInt32) (p : Pool τ α κ) : Ret → Prop
  | missed (hf : p₀.findReqContext r = none) (hw : p.workers = p₀.workers) (hr : p.reqHash = p₀.reqHash) :
      Cancelled p₀ r p (.int 0)
  | nothing (c : RequestContext τ κ) (hf : p₀.findReqContext r = some c)
      (hn : UInt32.ofNat (p₀.queued c.workerIdx r).length = 0) (hu : Unlinked p₀ p c.workerIdx r)
      (hr : p.reqHash = p₀.reqHash) : Cancelled p₀ r p (.int 0)
  | removed (c : RequestContext τ κ) (n : UInt32) (hf : p₀.findReqContext r = some c)
      (hn : n = UInt32.ofNat (p₀.queued c.workerIdx r).length) (hpos : 0 < n) (hu : Unlinked p₀ p c.workerIdx r)
      (hr : p.reqHash = (if (Pool.bumped c.owner (-n.toInt32) c).pendingCount = 0 then
        (p₀.addPending r c.owner (-n.toInt32)).removeReqContext r
        else p₀.addPending r c.owner (-n.toInt32)).reqHash) : Cancelled p₀ r p (.int n.toInt32.toInt)

/-- Where a cancel of `r` stands that was started on the pool `p₀`. -/
def CancelPhase (p₀ : Pool τ α κ) (r : UInt32) (p : Pool τ α κ) : Pc τ α κ → Prop
  | .cancelFind r' => r' = r ∧ p = p₀
  | .cancelRead r' x => r' = r ∧ p = p₀ ∧ ∃ c, p₀.findReqContext r = some c ∧ x = c.owner
  | .cancelQueue r' x i => r' = r ∧ p = p₀ ∧ ∃ c, p₀.findReqContext r = some c ∧ x = c.owner ∧ i = c.workerIdx
  | .cancelUpdate r' x n => r' = r ∧ ∃ c, p₀.findReqContext r = some c ∧ x = c.owner ∧
      n = UInt32.ofNat (p₀.queued c.workerIdx r).length ∧ 0 < n ∧ Unlinked p₀ p c.workerIdx r ∧
      p.reqHash = p₀.reqHash
  | .done ret => Cancelled p₀ r p ret
  | _ => False

omit [DecidableEq τ] in
theorem Unlinked.idle {p₀ p : Pool τ α κ} {i : Fin 64} {r : UInt32} (h₀ : p₀.Idle) (h : Unlinked p₀ p i r) :
    p.Idle := by
  obtain ⟨size, hw⟩ := h
  intro j
  rw [hw]
  rcases eq_or_ne j i with rfl | hj
  · rw [Function.update_self]; exact h₀ j
  · rw [Function.update_of_ne hj]; exact h₀ j

theorem CancelPhase.idle {p₀ p : Pool τ α κ} {r : UInt32} {pc : Pc τ α κ} (h₀ : p₀.Idle)
    (h : CancelPhase p₀ r p pc) : p.Idle := by
  have hsame : p.workers = p₀.workers → p.Idle := fun hw j => by rw [hw]; exact h₀ j
  cases pc with
  | cancelFind => exact h.2 ▸ h₀
  | cancelRead => exact h.2.1 ▸ h₀
  | cancelQueue => exact h.2.1 ▸ h₀
  | cancelUpdate =>
    obtain ⟨-, c, -, -, -, -, hu, -⟩ := h
    exact hu.idle h₀
  | done ret =>
    cases h with
    | missed hf hw hr => exact hsame hw
    | nothing c hf hn hu hr => exact hu.idle h₀
    | removed c n hf hn hpos hu hr => exact hu.idle h₀
  | _ => exact h.elim

theorem CancelPhase.thread {p₀ p p' : Pool τ α κ} {r : UInt32} {t : τ} {o : Oracle} {pc pc' : Pc τ α κ}
    (h : CancelPhase p₀ r p pc) (hs : Pool.ThreadStep p t o pc p' pc') : CancelPhase p₀ r p' pc' := by
  cases hs with
  | cancelFindSome r' c hf =>
    obtain ⟨rfl, rfl⟩ := h
    exact ⟨rfl, rfl, c, hf, rfl⟩
  | cancelFindNone r' hf =>
    obtain ⟨rfl, rfl⟩ := h
    exact .missed hf rfl rfl
  | cancelRead r' x =>
    obtain ⟨rfl, rfl, c, hf, rfl⟩ := h
    refine ⟨rfl, rfl, c, hf, rfl, ?_⟩
    rw [Pool.deref_of_find hf]; rfl
  | cancelQueue r' x i hm =>
    obtain ⟨rfl, rfl, c, hf, rfl, rfl⟩ := h
    by_cases hpos : 0 < UInt32.ofNat (p.queued c.workerIdx r').length
    · rw [if_pos hpos]
      exact ⟨rfl, c, hf, rfl, rfl, hpos, ⟨_, rfl⟩, rfl⟩
    · rw [if_neg hpos]
      exact .nothing c hf (UInt32.not_lt.1 hpos |> UInt32.le_zero_iff.1) ⟨_, rfl⟩ rfl
  | cancelUpdate r' x n c' hd =>
    obtain ⟨rfl, c, hf, rfl, hn, hpos, ⟨size, hw⟩, hr⟩ := h
    have hd' := Pool.deref_addPending hf hr (-n.toInt32)
    obtain rfl : Pool.bumped c.owner (-n.toInt32) c = c' := Option.some.inj (hd'.symm.trans hd)
    refine .removed c n hf hn hpos ⟨size, ?_⟩ ?_
    · rw [← hw]
      split <;> rfl
    · split <;> simp only [Pool.removeReqContext, Pool.addPending, Pool.setChain, hr]
  | cancelUpdateDangling r' x n hd =>
    obtain ⟨rfl, c, hf, rfl, -, -, -, hr⟩ := h
    have hd' := Pool.deref_addPending hf hr (-n.toInt32)
    rw [hd] at hd'
    cases hd'
  | _ => exact h.elim

theorem Ready.cancelled {s s' : PoolSys τ α κ} {t : τ} {r : UInt32} (h : Ready s)
    (hop : Finished s t (.cancel r) s') : ∃ ret, s'.threads t = .done ret ∧ Cancelled s.pool r s'.pool ret := by
  obtain ⟨⟨o, as, has, he⟩, hquiet⟩ := hop
  obtain ⟨s₁, hcall, he⟩ := exec_cons.1 he
  have hstart : CancelPhase s.pool r s₁.pool (s₁.threads t) ∧ s₁.pool.isDestroying = false := by
    cases step_cases hcall with
    | call u c o hu =>
      refine ⟨?_, h.alive⟩
      rw [setThread_threads, if_pos rfl, enter, if_pos h.running]
      exact ⟨rfl, rfl⟩
  have hend := exec_inv (I := fun u => CancelPhase s.pool r u.pool (u.threads t) ∧ u.pool.isDestroying = false)
    (fun u a u' hi ha (hs : PoolSys.step u a = some u') => by
      refine ⟨?_, (step_flags hs).2.trans hi.2⟩
      cases step_cases hs with
      | call v c o hv => exact ha.elim
      | worker i o p hp =>
        obtain rfl := idle_workerStep (hi.1.idle h.quiet.workers) hi.2 hp
        exact hi.1
      | thread v o p pc hp =>
        obtain rfl : v = t := ha
        rw [setThread_threads, if_pos rfl]
        exact hi.1.thread hp) hstart (Along.of_forall has) he
  rcases hquiet.calls t with hidle | ⟨ret, hret⟩
  · have hphase := hend.1
    rw [hidle] at hphase
    exact hphase.elim
  · have hphase := hend.1
    rw [hret] at hphase
    exact ⟨ret, hret, hphase⟩

/-! ### Exact cancels -/

/-- The cancel of `r` that was call `t` did what it is for. -/
structure CancelExact (s : PoolSys τ α κ) (t : τ) (r : UInt32) (s' : PoolSys τ α κ) : Prop where
  ret : s'.threads t = .done (.int (∑ i, (s.pool.queued i r).length : Nat))
  /-- no task of the request is left, the others stand in their order -/
  queues : ∀ i, (s'.pool.workers i).queue = (s.pool.workers i).queue.filter fun task => !(task.requestId == r)
  gone : s'.pool.ctxs r = []
  others : ∀ r', r' ≠ r → s'.pool.ctxs r' = s.pool.ctxs r'
  /-- a task of the request that is executed later was submitted by a call made later -/
  later : ∀ as s'', exec PoolSys.step s' as = some s'' → ∃ new, s''.pool.hist.taken = s'.pool.hist.taken ++ new ∧
    ∀ x ∈ new, x.2.requestId = r → s'.threads x.2.owner = .idle

/-- A request without contexts and queued tasks, or with one context that counts all its queued tasks, which
are on the worker the context is bound to. -/
def Gathered (p : Pool τ α κ) (r : UInt32) : Prop :=
  p.ctxs r = [] ∧ (∀ i, p.queued i r = []) ∨
  ∃ c, p.ctxs r = [c] ∧ (∀ i, i ≠ c.workerIdx → p.queued i r = []) ∧ p.queued c.workerIdx r ≠ [] ∧
    (p.queued c.workerIdx r).length < 2 ^ 31 ∧ c.pendingCount.toInt = (p.queued c.workerIdx r).length

/-- The tasks of `r` taken since `s₀`, and those queued now, are of calls made since. -/
structure Renewed (s₀ : PoolSys τ α κ) (r : UInt32) (s : PoolSys τ α κ) : Prop where
  tracked : ∀ u, Tracked s u
  called : ∀ u, s₀.threads u ≠ .idle → ∃ ret, s.threads u = .done ret
  queued : ∀ i, ∀ task ∈ (s.pool.workers i).queue, task.requestId = r → s₀.threads task.owner = .idle
  taken : ∃ new, s.pool.hist.taken = s₀.pool.hist.taken ++ new ∧
    ∀ x ∈ new, x.2.requestId = r → s₀.threads x.2.owner = .idle

theorem Renewed.step {s₀ s s' : PoolSys τ α κ} {r : UInt32} {a : Act τ α κ} (h : Renewed s₀ r s)
    (hs : s.step a = some s') : Renewed s₀ r s' := by
  have htracked := tracked_step h.tracked hs
  have hcalled : ∀ u, s₀.threads u ≠ .idle → ∃ ret, s'.threads u = .done ret := fun u hu => by
    obtain ⟨ret, hret⟩ := h.called u hu
    exact ⟨ret, done_step hret hs⟩
  obtain ⟨new, hnew, hold⟩ := h.taken
  cases step_cases hs with
  | call u c o hu => exact ⟨htracked, hcalled, h.queued, new, hnew, hold⟩
  | thread u o p pc hp =>
    have htaken := Pool.threadStep_taken hp
    -- a call that still moves had not been made
    have hidle : s₀.threads u = .idle := by
      by_contra hne
      obtain ⟨ret, hret⟩ := h.called u hne
      rw [hret] at hp
      cases hp
    refine ⟨htracked, hcalled, fun i task htask hr => ?_, new, htaken.trans hnew, hold⟩
    rcases Pool.threadStep_queue hp (h.tracked u).made htask with htask | ⟨rfl, -⟩
    · exact h.queued i task htask hr
    · exact hidle
  | worker i o p hp =>
    obtain ⟨htaken, hqueue⟩ := Pool.workerStep_queue hp
    refine ⟨htracked, hcalled, fun j task htask => h.queued j task (hqueue j task htask), ?_⟩
    rcases htaken with htaken | ⟨task, htask, htaken⟩
    · exact ⟨new, htaken.trans hnew, hold⟩
    · refine ⟨new ++ [(i, task)], ?_, fun x hx hr => ?_⟩
      · rw [← List.append_assoc, ← hnew]
        exact htaken
      rcases List.mem_append.1 hx with hx | hx
      · exact hold x hx hr
      · obtain rfl := List.mem_singleton.1 hx
        exact h.queued i task htask hr

/-- Between operations a request without queued tasks has none from the past to execute. -/
theorem Ready.later {s s' : PoolSys τ α κ} {r : UInt32} {as : List (Act τ α κ)} (h : Ready s)
    (hq : ∀ i, s.pool.queued i r = []) (he : exec PoolSys.step s as = some s') :
    ∃ new, s'.pool.hist.taken = s.pool.hist.taken ++ new ∧
      ∀ x ∈ new, x.2.requestId = r → s.threads x.2.owner = .idle := by
  have hstart : Renewed s r s := by
    refine ⟨h.tracked, fun u hu => (h.quiet.calls u).resolve_left hu, fun i task htask hr => ?_, [], ?_, ?_⟩
    · have hmem : task ∈ s.pool.queued i r := List.mem_filter.2 ⟨htask, by simpa using hr⟩
      rw [hq i] at hmem
      cases hmem
    · rw [List.append_nil]
    · exact fun x hx => by cases hx
  exact (exec_inv' (I := Renewed s r) (fun _ _ _ hi hs => hi.step hs) hstart he).taken

omit [DecidableEq τ] in
theorem Unlinked.queues {p₀ p : Pool τ α κ} {i : Fin 64} {r : UInt32} (h : Unlinked p₀ p i r) (j : Fin 64) :
    (p.workers j).queue = if j = i then (p₀.workers i).queue.filter (fun task => !(task.requestId == r))
      else (p₀.workers j).queue := by
  obtain ⟨size, hw⟩ := h
  rw [hw, Function.update_apply]
  split <;> rfl

omit [DecidableEq τ] in
theorem filter_of_queued_nil {p : Pool τ α κ} {i : Fin 64} {r : UInt32} (h : p.queued i r = []) :
    (p.workers i).queue.filter (fun task => !(task.requestId == r)) = (p.workers i).queue :=
  List.filter_eq_self.2 fun task htask => by
    have := List.filter_eq_nil_iff.1 h task htask
    simpa using this

omit [DecidableEq τ] in
theorem total_of_others {s : PoolSys τ α κ} {i : Fin 64} {r : UInt32} (h : ∀ j, j ≠ i → s.pool.queued j r = []) :
    ∑ j, (s.pool.queued j r).length = (s.pool.queued i r).length :=
  Finset.sum_eq_single i (fun j _ hj => by rw [h j hj, List.length_nil]) fun hi => absurd (Finset.mem_univ i) hi

namespace Cancelled
variable {s s' : PoolSys τ α κ} {t : τ} {r : UInt32} {ret : Ret}

theorem gathered (h : Cancelled s.pool r s'.pool ret) (hret : s'.threads t = .done ret)
    (hex : CancelExact s t r s') : Gathered s.pool r := by
  have hleft : ∀ i, s'.pool.queued i r = [] := fun i => by
    rw [Pool.queued, hex.queues i, List.filter_filter]
    simp
  have hsame : ∀ i, (s'.pool.workers i).queue = (s.pool.workers i).queue → s.pool.queued i r = [] := fun i hi =>
    (Pool.queued_congr hi r).symm.trans (hleft i)
  have hgone := hex.gone
  cases h with
  | missed hf hw hr =>
    rw [Pool.findReqContext_eq, List.head?_eq_none_iff] at hf
    exact .inl ⟨hf, fun i => hsame i (by rw [hw])⟩
  | nothing c hf hn hu hr =>
    -- the context stays
    rw [Pool.ctxs_congr hr] at hgone
    rw [Pool.findReqContext_eq, hgone] at hf
    cases hf
  | removed c n hf hn hpos hu hr =>
    rw [Pool.ctxs_congr hr, Pool.ctxs_afterCancel, if_pos rfl] at hgone
    rw [Pool.findReqContext_eq] at hf
    obtain ⟨rest, hc⟩ := List.head?_eq_some_iff.1 hf
    rw [hc, List.map_cons] at hgone
    split at hgone
    swap
    · cases hgone
    rename_i hzero
    obtain rfl : rest = [] := List.map_eq_nil_iff.1 hgone
    have hothers : ∀ i, i ≠ c.workerIdx → s.pool.queued i r = [] := fun i hi =>
      hsame i (by rw [hu.queues i, if_neg hi])
    have hcount : n.toInt32.toInt = (s.pool.queued c.workerIdx r).length := by
      have := hret.symm.trans hex.ret
      rw [total_of_others hothers] at this
      simpa using this
    have hpend : c.pendingCount = n.toInt32 := by
      simp only [Pool.bumped, if_true] at hzero
      exact Int32.count_off.1 hzero
    refine .inr ⟨c, hc, hothers, fun hnil => ?_, ?_, by rw [hpend, hcount]⟩
    · rw [hnil] at hn
      subst hn
      cases hpos
    · have := n.toInt32.toInt_lt
      omega

theorem exact (h : Cancelled s.pool r s'.pool ret) (hret : s'.threads t = .done ret)
    (hs' : Ready s') (hg : Gathered s.pool r) : CancelExact s t r s' := by
  suffices hfin : s'.threads t = .done (.int (∑ i, (s.pool.queued i r).length : Nat)) ∧
      (∀ i, (s'.pool.workers i).queue = (s.pool.workers i).queue.filter fun task => !(task.requestId == r)) ∧
      s'.pool.ctxs r = [] ∧ ∀ r', r' ≠ r → s'.pool.ctxs r' = s.pool.ctxs r' by
    obtain ⟨hret', hqueues, hgone, hothers⟩ := hfin
    refine ⟨hret', hqueues, hgone, hothers, fun as s'' he => hs'.later (fun i => ?_) he⟩
    rw [Pool.queued, hqueues i, List.filter_filter]
    simp
  rcases hg with ⟨hc, hq⟩ | ⟨c, hc, hq, hne, hlt, hn⟩
  · cases h with
    | missed hf hw hr =>
      refine ⟨?_, fun i => ?_, (Pool.ctxs_congr hr r).trans hc, fun r' _ => Pool.ctxs_congr hr r'⟩
      · rw [hret]
        simp [hq]
      · rw [filter_of_queued_nil (hq i), hw]
    | nothing c hf => rw [Pool.findReqContext_eq, hc] at hf; cases hf
    | removed c n hf => rw [Pool.findReqContext_eq, hc] at hf; cases hf
  · have hlen := List.length_pos_iff.2 hne
    have hof : (UInt32.ofNat (s.pool.queued c.workerIdx r).length).toInt32.toInt =
        (s.pool.queued c.workerIdx r).length := by
      rw [UInt32.toInt32_ofNat', Int32.toInt_ofNat_of_lt hlt]
    have hfirst : ∀ {c'}, s.pool.findReqContext r = some c' → c' = c := fun hf => by
      simpa [Pool.findReqContext_eq, hc, eq_comm] using hf
    cases h with
    | missed hf => rw [Pool.findReqContext_eq, hc] at hf; cases hf
    | nothing c' hf hn' =>
      obtain rfl := hfirst hf
      rw [UInt32.count_eq_zero (by omega)] at hn'
      omega
    | removed c' n hf hn' hpos hu hr =>
      obtain rfl := hfirst hf
      subst hn'
      have hzero : (Pool.bumped c'.owner
          (-(UInt32.ofNat (s.pool.queued c'.workerIdx r).length).toInt32) c').pendingCount = 0 := by
        simp only [Pool.bumped, if_true]
        exact Int32.count_off.2 (Int32.toInt_inj.1 (hn.trans hof.symm))
      refine ⟨?_, fun i => ?_, ?_, fun r' hr' => ?_⟩
      · rw [hret, hof, total_of_others hq]
      · rw [hu.queues i]
        split
        · rename_i hi
          rw [hi]
        · rename_i hi
          exact (filter_of_queued_nil (hq i hi)).symm
      · rw [Pool.ctxs_congr hr, Pool.ctxs_afterCancel, if_pos rfl, if_pos hzero, hc]
        rfl
      · rw [Pool.ctxs_congr hr, Pool.ctxs_afterCancel, if_neg hr']

end Cancelled

/-- After any sequence of operations a cancel is exact if and only if all queued tasks of the request are
gathered on the worker of its only context, which counts them. -/
theorem cancelExact_iff {s s' : PoolSys τ α κ} {t : τ} {r : UInt32} (h : Reached s)
    (hop : Finished s t (.cancel r) s') : CancelExact s t r s' ↔ Gathered s.pool r := by
  obtain ⟨ret, hret, hcan⟩ := h.ready.cancelled hop
  exact ⟨hcan.gathered hret, hcan.exact hret (h.ready.finished hop)⟩

instance (t : τ) (a : Act τ α κ) : Decidable (SectionOf t a) :=
  match a with
  | .call .. => inferInstanceAs (Decidable False)
  | .thread u _ => inferInstanceAs (Decidable (u = t))
  | .worker .. => inferInstanceAs (Decidable True)

def threeOfSeven : Call Unit Unit := .submitBatch ⟨[(7, ()), (7, ()), (7, ())], none, none, by decide⟩

/-- The cancel of request 7, four sections of call 2. -/
def cancelSeven : List (Act (Fin 3) Unit Unit) := .call 2 (.cancel 7) {} :: List.replicate 4 (.thread 2 {})

/-- Call 0 has submitted three tasks of request 7, which are on worker 0. -/
def batchQueued : PoolSys (Fin 3) Unit Unit :=
  last PoolSys.step start (.call 0 threeOfSeven {} :: List.replicate 7 (.thread 0 {})) (by decide +kernel)

/-- Call 1 has submitted one of request 8, which is on worker 1. -/
def besideQueued : PoolSys (Fin 3) Unit Unit :=
  last PoolSys.step batchQueued (.call 1 (.submitTask 8 () none) {} :: List.replicate 6 (.thread 1 {})) (by decide +kernel)

def batchCancelled : PoolSys (Fin 3) Unit Unit :=
  last PoolSys.step besideQueued cancelSeven (by decide +kernel)

theorem batchQueued_reached : Reached batchQueued :=
  .next (t := 0) (c := threeOfSeven) .start
    ⟨⟨{}, List.replicate 7 (.thread 0 {}), by decide, exec_last _⟩, fun t => by
      match t with
      | 0 => exact .inr ⟨.ids [1, 2, 3], by decide +kernel⟩
      | 1 => exact .inl (by decide +kernel)
      | 2 => exact .inl (by decide +kernel), by unfold Pool.Idle; decide +kernel⟩

theorem besideQueued_reached : Reached besideQueued :=
  .next (t := 1) (c := .submitTask 8 () none) batchQueued_reached
    ⟨⟨{}, List.replicate 6 (.thread 1 {}), by decide, exec_last _⟩, fun t => by
      match t with
      | 0 => exact .inr ⟨.ids [1, 2, 3], by decide +kernel⟩
      | 1 => exact .inr ⟨.ids [4], by decide +kernel⟩
      | 2 => exact .inl (by decide +kernel), by unfold Pool.Idle; decide +kernel⟩

theorem batchCancelled_finished : Finished besideQueued 2 (.cancel 7) batchCancelled where
  run := ⟨{}, List.replicate 4 (.thread 2 {}), by decide, exec_last _⟩
  quiet := ⟨fun t => by
    match t with
    | 0 => exact .inr ⟨.ids [1, 2, 3], by decide +kernel⟩
    | 1 => exact .inr ⟨.ids [4], by decide +kernel⟩
    | 2 => exact .inr ⟨.int 3, by decide +kernel⟩, by unfold Pool.Idle; decide +kernel⟩

/-- The three tasks are destroyed, and the one of request 8 stays. -/
theorem batchCancelled_exact : CancelExact besideQueued 2 7 batchCancelled :=
  (cancelExact_iff besideQueued_reached batchCancelled_finished).2
    (.inr ⟨⟨7, 0, 3, none, 0⟩, by decide +kernel, by decide +kernel, by decide +kernel, by decide +kernel,
      by decide +kernel⟩)

/-- Call 0 has submitted a task of request 7, which is on worker 0. -/
def onceQueued : PoolSys (Fin 3) Unit Unit :=
  last PoolSys.step start (.call 0 submitSeven {} :: List.replicate 5 (.thread 0 {})) (by decide +kernel)

/-- Call 1 has submitted another, which is on worker 1. -/
def twiceQueued : PoolSys (Fin 3) Unit Unit :=
  last PoolSys.step onceQueued (.call 1 submitSeven {} :: List.replicate 6 (.thread 1 {})) (by decide +kernel)

def twiceCancelled : PoolSys (Fin 3) Unit Unit :=
  last PoolSys.step twiceQueued cancelSeven (by decide +kernel)

theorem onceQueued_reached : Reached onceQueued :=
  .next (t := 0) (c := submitSeven) .start
    ⟨⟨{}, List.replicate 5 (.thread 0 {}), by decide, exec_last _⟩, fun t => by
      match t with
      | 0 => exact .inr ⟨.ids [1], by decide +kernel⟩
      | 1 => exact .inl (by decide +kernel)
      | 2 => exact .inl (by decide +kernel), by unfold Pool.Idle; decide +kernel⟩

theorem twiceQueued_reached : Reached twiceQueued :=
  .next (t := 1) (c := submitSeven) onceQueued_reached
    ⟨⟨{}, List.replicate 6 (.thread 1 {}), by decide, exec_last _⟩, fun t => by
      match t with
      | 0 => exact .inr ⟨.ids [1], by decide +kernel⟩
      | 1 => exact .inr ⟨.ids [2], by decide +kernel⟩
      | 2 => exact .inl (by decide +kernel), by unfold Pool.Idle; decide +kernel⟩

theorem twiceCancelled_finished : Finished twiceQueued 2 (.cancel 7) twiceCancelled where
  run := ⟨{}, List.replicate 4 (.thread 2 {}), by decide, exec_last _⟩
  quiet := ⟨fun t => by
    match t with
    | 0 => exact .inr ⟨.ids [1], by decide +kernel⟩
    | 1 => exact .inr ⟨.ids [2], by decide +kernel⟩
    | 2 => exact .inr ⟨.int 1, by decide +kernel⟩, by unfold Pool.Idle; decide +kernel⟩

/-- The task on worker 1 is neither counted nor unlinked. -/
theorem twiceCancelled_inexact : Reached twiceQueued ∧ Finished twiceQueued 2 (.cancel 7) twiceCancelled ∧
    ¬ CancelExact twiceQueued 2 7 twiceCancelled := by
  refine ⟨twiceQueued_reached, twiceCancelled_finished, fun h => ?_⟩
  have hret : twiceCancelled.threads 2 = .done (.int 1) := by decide +kernel
  have htotal : ∑ i, (twiceQueued.pool.queued i 7).length = 2 := by decide +kernel
  have := hret.symm.trans h.ret
  rw [htotal] at this
  cases this

end PoolSys
end OsTransport
