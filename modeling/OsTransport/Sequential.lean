import OsTransport.Account

/-!
# Operations one after the other

`Complete s t c s'` is an operation carried out to its end: the call `t` returns and every worker waits
again. `Phase` says where a submission stands in it, relative to the pool it started on. As long as every
accepted submission is of an id that has no context, the account of every request is kept and every
queued task is where its context says (`Tidy.placed`); a submission of an id with outstanding tasks goes
to a worker with an empty queue, which is never the worker the context is bound to (`Tidy.misplaced`).
-/

namespace OsTransport

namespace Pool
variable {τ α κ : Type}

/-- Each queued task has a context, bound to the worker that holds the task. -/
def Placed (p : Pool τ α κ) : Prop :=
  ∀ i, ∀ task ∈ (p.workers i).queue,
    (p.findReqContext task.requestId).map (fun ctx => ctx.workerIdx) = some i

/-- `queue_size` is the length of the queue. -/
def Sized (p : Pool τ α κ) : Prop :=
  ∀ i, (p.workers i).queueSize = UInt32.ofNat (p.workers i).queue.length ∧
    (p.workers i).queue.length < 2 ^ 32

/-- Every worker is idle and has no wake-up to take. -/
def Idle (p : Pool τ α κ) : Prop :=
  ∀ i, (p.workers i).state = .idle ∧ (p.workers i).pc = .wait ∧ (p.workers i).pendingReq = 0

theorem Sized.update {p p' : Pool τ α κ} (h : p.Sized) {i : Fin 64} {w : WorkerThread τ α κ}
    (hw : p'.workers = Function.update p.workers i w)
    (h' : w.queueSize = UInt32.ofNat w.queue.length ∧ w.queue.length < 2 ^ 32) : p'.Sized := by
  intro j
  rw [hw]
  rcases eq_or_ne j i with rfl | hj
  · rwa [Function.update_self]
  · rw [Function.update_of_ne hj]
    exact h j

theorem Sized.congr {p p' : Pool τ α κ} (h : p.Sized) (hw : p'.workers = p.workers) : p'.Sized := by
  intro j
  rw [hw]
  exact h j

end Pool

namespace Pool
variable {τ α κ : Type} [DecidableEq τ]

theorem Sized.workerStep {p p' : Pool τ α κ} {i : Fin 64} {o : Oracle} (hp : p.Sized)
    (h : WorkerStep p i o p') : p'.Sized := by
  have hsame : ∀ {w : WorkerThread τ α κ}, p'.workers = Function.update p.workers i w →
      w.queue = (p.workers i).queue → w.queueSize = (p.workers i).queueSize → p'.Sized :=
    fun hw hq hs => hp.update hw (by rw [hq, hs]; exact hp i)
  cases h with
  | take task rest hpc hr hpop =>
    have hlen := popFirst_length hpop
    obtain ⟨hs, hlt⟩ := hp i
    refine hp.update (i := i) rfl ⟨?_, by simp only; omega⟩
    simp only [hs, hlen, UInt32.count_pop]
  | _ => exact hsame rfl rfl rfl

theorem Sized.threadStep {p p' : Pool τ α κ} {t : τ} {o : Oracle} {pc pc' : Pc τ α κ} (hp : p.Sized)
    (h : ThreadStep p t o pc p' pc') (hl : pc.Local t)
    (hempty : ∀ b i nodes, pc = .attach b i nodes → (p.workers i).queueSize = 0) : p'.Sized := by
  cases h with
  | attach b i nodes size hm hs =>
    obtain ⟨hs₀, hlt⟩ := hp i
    have hnil : (p.workers i).queue = [] := by
      rw [hempty b i nodes rfl, eq_comm, UInt32.count_eq_zero hlt] at hs₀
      exact List.length_eq_zero_iff.1 hs₀
    have hsize : size = UInt32.ofNat nodes.length := by
      rcases hs with rfl | rfl
      · rw [Submit.count, hl.2]
      · rfl
    refine hp.update (i := i) rfl ⟨?_, ?_⟩
    · simp [hempty b i nodes rfl, hnil, hsize]
    · simp only [hnil, List.nil_append, hl.2]
      exact b.count_lt
  | cancelQueue r ctx i hm =>
    obtain ⟨hs, hlt⟩ := hp i
    have hlen : (p.workers i).queue.length = (p.queued i r).length +
        ((p.workers i).queue.filter fun task => !(task.requestId == r)).length :=
      List.length_eq_length_filter_add _
    refine hp.update (i := i) rfl ⟨?_, ?_⟩
    · simp only [hs, hlen, UInt32.count_remove]
    · simp only; omega
  | wakeSet r i hm => exact hp.update (i := i) rfl (hp i)
  | cancelUpdate r ctx n c hd => exact hp.congr (by split <;> rfl)
  | cancelUpdateDangling r ctx n hd => exact hp.congr (by split <;> rfl)
  | _ => exact hp.congr rfl

end Pool

open Lts
namespace PoolSys
variable {τ α κ : Type} [DecidableEq τ]

/-- No call is running and every worker waits for its next wake-up. -/
structure Quiet (s : PoolSys τ α κ) : Prop where
  calls : ∀ t, s.threads t = .idle ∨ ∃ ret, s.threads t = .done ret
  workers : s.pool.Idle

/-- A section of call `t` whose allocations succeed, or of a worker. -/
def OpAct (t : τ) : Act τ α κ → Prop
  | .call .. => False
  | .thread u o => u = t ∧ o.ok = true ∧ o.okNode = true
  | .worker .. => True

/-- The operation `c` is carried out from `s` to its end, as call `t`. -/
structure Complete (s : PoolSys τ α κ) (t : τ) (c : Call α κ) (s' : PoolSys τ α κ) : Prop where
  run : ∃ as, (∀ a ∈ as, OpAct t a) ∧ exec PoolSys.step s (.call t c {} :: as) = some s'
  quiet : Quiet s'

/-- What holds between operations. -/
structure Tidy (s : PoolSys τ α κ) : Prop where
  quiet : Quiet s
  running : s.pool.isRunning = true
  alive : s.pool.isDestroying = false
  tracked : ∀ t, Tracked s t
  sized : s.pool.Sized
  account : ∀ r, (s.view r).Account

/-- `Tidy` without the accounts. -/
structure Ready (s : PoolSys τ α κ) : Prop where
  quiet : Quiet s
  running : s.pool.isRunning = true
  alive : s.pool.isDestroying = false
  tracked : ∀ t, Tracked s t
  sized : s.pool.Sized

theorem Tidy.ready {s : PoolSys τ α κ} (h : Tidy s) : Ready s :=
  ⟨h.quiet, h.running, h.alive, h.tracked, h.sized⟩

omit [DecidableEq τ] in
theorem Quiet.role {s : PoolSys τ α κ} (h : Quiet s) (r : UInt32) (t : τ) : (s.view r).role t = .none := by
  change (s.threads t).role r = .none
  rcases h.calls t with ht | ⟨ret, ht⟩ <;> rw [ht] <;> rfl

theorem Tidy.cases {s : PoolSys τ α κ} (h : Tidy s) (r : UInt32) :
    s.pool.ctxs r = [] ∧ (∀ i, s.pool.queued i r = []) ∨
    ∃ c, s.pool.ctxs r = [c] ∧ s.pool.queued c.workerIdx r ≠ [] ∧
      ∀ i, i ≠ c.workerIdx → s.pool.queued i r = [] := by
  have hd : ∀ i, (s.view r).duty i = .none := fun i => by
    change (s.pool.workers i).pc.duty r = .none
    rw [(h.quiet.workers i).2.1]; rfl
  cases (h.account r).stage with
  | settled hq hres hr =>
    refine .inl ⟨?_, hq⟩
    cases hres with
    | gone hc => exact hc
    | last w c hc hw hn hdw => rw [hd w] at hdw; simp at hdw
    | retiring w c hc hw hdw => rw [hd w] at hdw; cases hdw
  | live w c d hc hw hne hn hlt hdw hq =>
    obtain rfl : c.workerIdx = w := hw
    exact .inr ⟨c, hc, hne, hq⟩
  | cancelling u c n hc hn hu => rw [h.quiet.role r u] at hu; cases hu
  | window u w nodes hres hu => rcases hu with hu | ⟨hu, -⟩ <;> rw [h.quiet.role r u] at hu <;> cases hu

theorem Tidy.placed {s : PoolSys τ α κ} (h : Tidy s) : s.pool.Placed := by
  intro i task htask
  have hmem : task ∈ s.pool.queued i task.requestId := List.mem_filter.2 ⟨htask, by simp⟩
  rcases h.cases task.requestId with ⟨-, hq⟩ | ⟨c, hc, -, hq⟩
  · rw [hq i] at hmem; cases hmem
  · have hi : c.workerIdx = i := by
      by_contra hne
      rw [hq i (Ne.symm hne)] at hmem; cases hmem
    rw [Pool.findReqContext_eq, hc, ← hi]; rfl

/-! ### A submission on an idle pool -/

/-- Worker `i` is one that `select_best_worker` returns on an idle pool. -/
def Selectable (p : Pool τ α κ) (i : Fin 64) : Prop := (p.workers i).queueSize = 0

/-- The tasks `nodes` were appended to the queue of worker `i`. -/
def Attached (p₀ p : Pool τ α κ) (i : Fin 64) (nodes : List (ThreadPoolTask τ α κ)) : Prop :=
  ∃ size, p.workers = Function.update p₀.workers i
    { p₀.workers i with queue := (p₀.workers i).queue ++ nodes, queueSize := size }

/-- Where a submission of `b` stands that was started on the pool `p₀`. -/
def Phase (p₀ : Pool τ α κ) (b : Submit α κ) (p : Pool τ α κ) : Pc τ α κ → Prop
  | .select b' _ i best _ => b' = b ∧ best = none ∧ (∀ j < i, ¬ Selectable p₀ j) ∧
      p.workers = p₀.workers ∧ p.reqHash = p₀.reqHash
  | .create b' w _ => b' = b ∧ (∀ i, w = some i → Selectable p₀ i) ∧
      p.workers = p₀.workers ∧ p.reqHash = p₀.reqHash
  | .attach b' i _ => b' = b ∧ Selectable p₀ i ∧ p.workers = p₀.workers ∧ p.reqHash = p₀.reqHash
  | .findCtx b' i nodes => b' = b ∧ Selectable p₀ i ∧ Attached p₀ p i nodes ∧ p.reqHash = p₀.reqHash
  | .bump b' nodes ctx => b' = b ∧ ∃ i c, Selectable p₀ i ∧ Attached p₀ p i nodes ∧
      p.reqHash = p₀.reqHash ∧ p₀.findReqContext b.requestId = some c ∧ ctx = c.owner
  | .insert b' i nodes => b' = b ∧ Selectable p₀ i ∧ Attached p₀ p i nodes ∧ p.reqHash = p₀.reqHash ∧
      p₀.findReqContext b.requestId = none
  | .done (.ids _) => ∃ i nodes, nodes ≠ [] ∧ (∀ task ∈ nodes, task.requestId = b.requestId) ∧
      Selectable p₀ i ∧ Attached p₀ p i nodes ∧
      ∀ c, p₀.findReqContext b.requestId = some c →
        ∃ c', p.findReqContext b.requestId = some c' ∧ c'.workerIdx = c.workerIdx
  | .done .null => (∀ i, ¬ Selectable p₀ i) ∧ p.workers = p₀.workers ∧ p.reqHash = p₀.reqHash
  | _ => False

omit [DecidableEq τ] in
theorem Attached.idle {p₀ p : Pool τ α κ} {i : Fin 64} {nodes : List (ThreadPoolTask τ α κ)}
    (h : Attached p₀ p i nodes) (h₀ : Pool.Idle p₀) : Pool.Idle p := by
  obtain ⟨size, hw⟩ := h
  intro j
  rw [hw]
  rcases eq_or_ne j i with rfl | hj
  · rw [Function.update_self]; exact h₀ j
  · rw [Function.update_of_ne hj]; exact h₀ j

theorem parked_workerStep {p p' : Pool τ α κ} {i : Fin 64} {o : Oracle} (hpc : (p.workers i).pc = .wait)
    (hr : (p.workers i).pendingReq = 0) (ha : p.isDestroying = false) (h : Pool.WorkerStep p i o p') : p' = p := by
  cases h with
  | park st pc hpc' hq hpark =>
    obtain ⟨rfl, rfl⟩ : pc = .wait ∧ st = (p.workers i).state :=
      hpark.resolve_right fun hd => by rw [ha] at hd; exact absurd hd.2 (by simp)
    rw [← hr, ← hpc]
    simp [Pool.setWorker]
  | take task rest hpc' hr' => exact absurd hr hr'
  | _ => simp_all

theorem idle_workerStep {p p' : Pool τ α κ} {i : Fin 64} {o : Oracle} (h₀ : Pool.Idle p)
    (ha : p.isDestroying = false) (h : Pool.WorkerStep p i o p') : p' = p :=
  parked_workerStep (h₀ i).2.1 (h₀ i).2.2 ha h

omit [DecidableEq τ] in
/-- On an idle pool a selection turn takes an empty worker or goes on. -/
theorem selectStep_idle {p : Pool τ α κ} (h₀ : Pool.Idle p) (b : Submit α κ)
    (nodes : List (ThreadPoolTask τ α κ)) (i : Fin 64) (minLoad : UInt32) :
    (p.workers i).queueSize = 0 ∧ p.selectStep b nodes i none minLoad = Pool.afterSelect b nodes i ∨
    (p.workers i).queueSize ≠ 0 ∧
      ((∃ h : i.val + 1 < 64, p.selectStep b nodes i none minLoad =
          .select b nodes ⟨i.val + 1, h⟩ none minLoad) ∨
        i.val = 63 ∧ p.selectStep b nodes i none minLoad = .done .null) := by
  obtain ⟨hst, -, -⟩ := h₀ i
  unfold Pool.selectStep
  by_cases hq : (p.workers i).queueSize = 0
  · exact .inl ⟨hq, by simp [hst, hq]⟩
  · refine .inr ⟨hq, ?_⟩
    by_cases hi : i.val + 1 < 64
    · exact .inl ⟨hi, by simp [hst, hq, hi]⟩
    · exact .inr ⟨by omega, by simp [hst, hq, hi]⟩

theorem Phase.step {p₀ p p' : Pool τ α κ} {b : Submit α κ} {t : τ} {o : Oracle} {pc pc' : Pc τ α κ}
    (h₀ : Pool.Idle p₀) (h : Phase p₀ b p pc) (hl : pc.Local t) (ho : o.ok = true ∧ o.okNode = true)
    (hs : Pool.ThreadStep p t o pc p' pc') : Phase p₀ b p' pc' := by
  cases hs with
  | select b' nodes i best minLoad hm =>
    obtain ⟨rfl, rfl, hlt, hw, hr⟩ := h
    have hidle : Pool.Idle p := fun j => by rw [hw]; exact h₀ j
    rcases selectStep_idle hidle b' nodes i minLoad with ⟨hq, hs⟩ | ⟨hq, ⟨hi, hs⟩ | ⟨hi, hs⟩⟩ <;> rw [hs]
    · have hsel : Selectable p₀ i := by rw [Selectable, ← hw]; exact hq
      unfold Pool.afterSelect
      split
      · exact ⟨rfl, fun j hj => by cases hj; exact hsel, hw, hr⟩
      · exact ⟨rfl, hsel, hw, hr⟩
    · refine ⟨rfl, rfl, fun j hj => ?_, hw, hr⟩
      rcases lt_or_eq_of_le (Nat.lt_succ_iff.1 (Fin.lt_def.1 hj)) with hj | hj
      · exact hlt j hj
      · rw [Selectable, ← hw, Fin.ext hj]; exact hq
    · refine ⟨fun j => ?_, hw, hr⟩
      rcases lt_or_eq_of_le (show j.val ≤ i.val by omega) with hj | hj
      · exact hlt j hj
      · rw [Selectable, ← hw, Fin.ext hj]; exact hq
  | create b' w nodes arg ha =>
    obtain ⟨rfl, hsel, hw, hr⟩ := h
    unfold Pool.afterCreate
    split
    · exact ⟨rfl, hsel, hw, hr⟩
    split
    · exact ⟨rfl, hsel _ rfl, hw, hr⟩
    · exact ⟨rfl, rfl, fun j hj => absurd hj (Fin.not_lt_zero j), hw, hr⟩
  | createFail b' w nodes id ho' => simp [ho] at ho'
  | attach b' i nodes size hm hsize =>
    obtain ⟨rfl, hsel, hw, hr⟩ := h
    refine ⟨rfl, hsel, ⟨(p.workers i).queueSize + size, ?_⟩, hr⟩
    simp [Pool.setWorker, hw]
  | attachFail b' i nodes ho' => simp [ho] at ho'
  | findSome b' i nodes ctx hf =>
    obtain ⟨rfl, hsel, hatt, hr⟩ := h
    refine ⟨rfl, i, ctx, hsel, hatt, hr, ?_, rfl⟩
    rw [← hf, Pool.findReqContext, Pool.findReqContext, hr]
  | findNone b' i nodes hf =>
    obtain ⟨rfl, hsel, hatt, hr⟩ := h
    refine ⟨rfl, hsel, hatt, hr, ?_⟩
    rw [← hf, Pool.findReqContext, Pool.findReqContext, hr]
  | bump b' nodes ctx =>
    obtain ⟨rfl, i, c, hsel, ⟨size, hatt⟩, hr, hf, rfl⟩ := h
    refine ⟨i, nodes, ?_, fun task hm => (hl.1.of_mem hm).2, hsel, ⟨size, hatt⟩, fun c₀ hc₀ => ?_⟩
    · exact List.length_pos_iff.1 (hl.2 ▸ List.length_pos_iff.2 b'.args_ne)
    · have hp : p.findReqContext b'.requestId = some c := by
        rw [← hf, Pool.findReqContext, Pool.findReqContext, hr]
      obtain rfl : c = c₀ := Option.some.inj (hf.symm.trans hc₀)
      refine ⟨_, by rw [Pool.findReqContext_addPending, hp]; rfl, ?_⟩
      unfold Pool.bumped
      split <;> rfl
  | insert b' i nodes ho' =>
    obtain ⟨rfl, hsel, ⟨size, hatt⟩, hr, hf⟩ := h
    refine ⟨i, nodes, ?_, fun task hm => (hl.1.of_mem hm).2, hsel, ⟨size, hatt⟩, fun c₀ hc₀ => ?_⟩
    · exact List.length_pos_iff.1 (hl.2 ▸ List.length_pos_iff.2 b'.args_ne)
    · rw [hf] at hc₀; cases hc₀
  | insertFail b' i nodes ho' => rw [ho.1] at ho'; cases ho'
  | _ => exact h.elim

omit [DecidableEq τ] in
theorem Phase.idle {p₀ p : Pool τ α κ} {b : Submit α κ} {pc : Pc τ α κ} (h₀ : Pool.Idle p₀)
    (h : Phase p₀ b p pc) : Pool.Idle p := by
  have hsame : p.workers = p₀.workers → Pool.Idle p := fun hw i => by rw [hw]; exact h₀ i
  cases pc with
  | select => exact hsame h.2.2.2.1
  | create => exact hsame h.2.2.1
  | attach => exact hsame h.2.2.1
  | findCtx => exact h.2.2.1.idle h₀
  | bump =>
    obtain ⟨-, i, c, -, hatt, -⟩ := h
    exact hatt.idle h₀
  | insert => exact h.2.2.1.idle h₀
  | done ret =>
    cases ret with
    | ids =>
      obtain ⟨i, nodes, -, -, -, hatt, -⟩ := h
      exact hatt.idle h₀
    | null => exact hsame h.2.1
    | int => exact h.elim
  | _ => exact h.elim

/-- Inside the submission of `b`, started in `s₀` as call `t`. -/
structure Submitting (s₀ : PoolSys τ α κ) (t : τ) (b : Submit α κ) (s : PoolSys τ α κ) : Prop where
  phase : Phase s₀.pool b s.pool (s.threads t)
  others : ∀ u, u ≠ t → s.threads u = s₀.threads u
  alive : s.pool.isDestroying = false
  tracked : ∀ u, Tracked s u
  sized : s.pool.Sized

namespace Submitting
variable {s₀ s s' : PoolSys τ α κ} {t : τ} {b : Submit α κ} {a : Act τ α κ}

theorem step (h₀ : Pool.Idle s₀.pool) (h : Submitting s₀ t b s) (ha : OpAct t a)
    (hs : s.step a = some s') : Submitting s₀ t b s' := by
  have htracked := tracked_step h.tracked hs
  have halive := (step_flags hs).2.trans h.alive
  cases step_cases hs with
  | call u c o hu => exact ha.elim
  | worker i o p hp =>
    obtain rfl := idle_workerStep (h.phase.idle h₀) h.alive hp
    exact h
  | thread u o p pc hp =>
    obtain ⟨rfl, ho⟩ := ha
    refine ⟨?_, fun v hv => ?_, halive, htracked, ?_⟩
    · rw [setThread_threads, if_pos rfl]
      exact h.phase.step h₀ (h.tracked u).made ho hp
    · rw [setThread_threads, if_neg hv]
      exact h.others v hv
    · refine h.sized.threadStep hp (h.tracked u).made fun b' i nodes hpc => ?_
      have hph := h.phase
      rw [hpc] at hph
      obtain ⟨-, hsel, hw, -⟩ := hph
      rw [hw]; exact hsel

/-- A submission of an id without a context keeps every account. -/
theorem careful (h₀ : Tidy s₀) (h : Submitting s₀ t b s)
    (hfresh : s₀.pool.findReqContext b.requestId = none ∨ ∀ i, ¬ Selectable s₀.pool i)
    (ha : OpAct t a) (r : UInt32) : Careful r s a := by
  have hrole : ∀ u, u ≠ t → (s.view r).role u = .none := fun u hu => by
    change (s.threads u).role r = .none
    rw [h.others u hu]
    exact h₀.quiet.role r u
  have hph := h.phase
  intro m hm
  cases m with
  | plain => trivial
  | take =>
    obtain ⟨i, o, rfl, -, hp, hr, -⟩ := hm
    exact absurd ((h.phase.idle h₀.quiet.workers i).2.2.symm.trans hp).symm hr
  | attach =>
    obtain ⟨u, o, b', i, nodes, rfl, hpc, rfl⟩ := hm
    obtain ⟨rfl, -⟩ := ha
    rw [hpc] at hph
    obtain ⟨rfl, hsel, hw, hr⟩ := hph
    have hnone := hfresh.resolve_right fun hn => hn i hsel
    refine ⟨fun j => ?_, fun v => ?_⟩
    · rcases h₀.cases b'.requestId with ⟨-, hq⟩ | ⟨c, hc, -⟩
      · exact (Pool.queued_congr (by rw [hw]) _).trans (hq j)
      · rw [Pool.findReqContext_eq, hc] at hnone; cases hnone
    · rcases eq_or_ne v u with rfl | hv
      · change (s.threads v).role _ = .none
        rw [hpc]; rfl
      · exact hrole v hv
  | hit =>
    obtain ⟨u, o, b', i, nodes, rfl, hpc, rfl, hne⟩ := hm
    obtain ⟨rfl, -⟩ := ha
    rw [hpc] at hph
    obtain ⟨rfl, hsel, -, hr⟩ := hph
    have hnone := hfresh.resolve_right fun hn => hn i hsel
    rw [Pool.findReqContext_eq, List.head?_eq_none_iff] at hnone
    rw [Pool.ctxs_congr hr] at hne
    exact hne hnone
  | noContext =>
    obtain ⟨u, o, b', i, nodes, rfl, hpc, -, ho⟩ := hm
    rw [ha.2.1] at ho; cases ho
  | cancel =>
    obtain ⟨u, o, rfl⟩ := hm
    exact ha.elim

end Submitting

theorem enter_phase {s : PoolSys τ α κ} (h : Ready s) {c : Call α κ} {b : Submit α κ}
    (hc : c.submit? = some b) : Phase s.pool b s.pool (enter s.pool {} c) := by
  cases c with
  | submitTask r arg cb =>
    obtain rfl := Option.some.inj hc
    simp only [enter, h.running, if_true]
    exact ⟨rfl, fun i hi => (by cases hi), rfl, rfl⟩
  | submitBatch b' =>
    have hv : b'.validate = some b := hc
    simp only [enter, h.running, hv]
    exact ⟨rfl, rfl, fun j hj => absurd hj (Fin.not_lt_zero j), rfl, rfl⟩
  | wakeUp r => cases hc
  | cancel r => cases hc

/-! ### Wake-ups and cancels -/

omit [DecidableEq τ] in
theorem calm_of_not_submitting {pc : Pc τ α κ} (h : pc.submitting = false) (r : UInt32) (i : Fin 64)
    (nodes : List (ThreadPoolTask τ α κ)) : pc.role r ≠ .attached i nodes ∧ pc.role r ≠ .missed i nodes := by
  cases pc <;> simp_all [Pc.submitting, Pc.role] <;> constructor <;> split <;> simp

theorem submitting_threadStep {p p' : Pool τ α κ} {t : τ} {o : Oracle} {pc pc' : Pc τ α κ}
    (h : Pool.ThreadStep p t o pc p' pc') (hpc : pc.submitting = false) : pc'.submitting = false := by
  cases h with
  | cancelQueue => split <;> rfl
  | wakeFindSome | wakeFindNone | wakeRead | wakeSet | cancelFindSome | cancelFindNone | cancelRead
    | cancelUpdate | cancelUpdateDangling => rfl
  | _ => cases hpc

/-- Inside a wake-up or a cancel, started in `s₀` as call `t`. -/
structure Serving (s₀ : PoolSys τ α κ) (t : τ) (s : PoolSys τ α κ) : Prop where
  calm : (s.threads t).submitting = false
  others : ∀ u, u ≠ t → s.threads u = s₀.threads u
  tracked : ∀ u, Tracked s u
  sized : s.pool.Sized
  account : ∀ r, (s.view r).Account

namespace Serving
variable {s₀ s s' : PoolSys τ α κ} {t : τ} {a : Act τ α κ}

theorem submitting (h₀ : Quiet s₀) (h : Serving s₀ t s) (u : τ) : (s.threads u).submitting = false := by
  rcases eq_or_ne u t with rfl | hu
  · exact h.calm
  · rw [h.others u hu]
    rcases h₀.calls u with hu | ⟨ret, hu⟩ <;> rw [hu] <;> rfl

theorem careful (h₀ : Quiet s₀) (h : Serving s₀ t s) (ha : OpAct t a) (r : UInt32) : Careful r s a := by
  have hopen : ¬ (s.view r).Open := by
    rintro ⟨u, i, nodes, hu⟩
    obtain ⟨h₁, h₂⟩ := calm_of_not_submitting (h.submitting h₀ u) r i nodes
    rcases hu with hu | hu
    · exact h₁ hu
    · exact h₂ hu
  have hpc : ∀ {u pc}, s.threads u = pc → pc.submitting = true → False := fun {u pc} hu hs => by
    have := h.submitting h₀ u
    rw [hu, hs] at this; cases this
  intro m hm
  cases m with
  | plain => trivial
  | take => exact hopen
  | attach =>
    obtain ⟨u, o, b, i, nodes, -, hu, -⟩ := hm
    exact (hpc hu rfl).elim
  | hit =>
    obtain ⟨u, o, b, i, nodes, -, hu, -⟩ := hm
    exact hpc hu rfl
  | noContext =>
    obtain ⟨u, o, b, i, nodes, -, hu, -⟩ := hm
    exact hpc hu rfl
  | cancel =>
    obtain ⟨u, o, rfl⟩ := hm
    exact ha.elim

theorem step (h₀ : Quiet s₀) (h : Serving s₀ t s) (ha : OpAct t a) (hs : s.step a = some s') :
    Serving s₀ t s' := by
  have htracked := tracked_step h.tracked hs
  have haccount : ∀ r, (s'.view r).Account := fun r =>
    account_step (h.account r) h.tracked (h.careful h₀ ha r) hs
  cases step_cases hs with
  | call u c o hu => exact ha.elim
  | worker i o p hp => exact ⟨h.calm, h.others, htracked, h.sized.workerStep hp, haccount⟩
  | thread u o p pc hp =>
    obtain ⟨rfl, -⟩ := ha
    refine ⟨?_, fun v hv => ?_, htracked, ?_, haccount⟩
    · rw [setThread_threads, if_pos rfl]
      exact submitting_threadStep hp h.calm
    · rw [setThread_threads, if_neg hv]
      exact h.others v hv
    · refine h.sized.threadStep hp (h.tracked u).made fun b i nodes hpc => ?_
      have := h.calm
      rw [hpc] at this; cases this

end Serving

/-! ### Runs of operations -/

/-- If the call submits tasks, their id has no context or no worker has an empty queue, so that the
submission is refused. -/
def Fresh (s : PoolSys τ α κ) (c : Call α κ) : Prop :=
  ∀ b, c.submit? = some b → s.pool.findReqContext b.requestId = none ∨ ∀ i, ¬ Selectable s.pool i

theorem Tidy.start : Tidy (start : PoolSys τ α κ) where
  quiet := ⟨fun _ => .inl rfl, fun _ => ⟨rfl, rfl, rfl⟩⟩
  running := rfl
  alive := rfl
  tracked := tracked_start
  sized _ := ⟨rfl, Nat.two_pow_pos 32⟩
  account := account_start

theorem Ready.submitting {s s₁ : PoolSys τ α κ} {t : τ} {c : Call α κ} {b : Submit α κ} (h : Ready s)
    (hc : c.submit? = some b) (hcall : s.step (.call t c {}) = some s₁) : Submitting s t b s₁ := by
  have htracked := tracked_step h.tracked hcall
  have halive := (step_flags hcall).2.trans h.alive
  cases step_cases hcall with
  | call u c o hu =>
    refine ⟨?_, fun v hv => ?_, halive, htracked, h.sized⟩
    · rw [setThread_threads, if_pos rfl]
      exact enter_phase h hc
    · rw [setThread_threads, if_neg hv]

omit [DecidableEq τ] in
theorem careful_call {s : PoolSys τ α κ} (h : Quiet s) (t : τ) (c : Call α κ) (o : Oracle) (r : UInt32) :
    Careful r s (.call t c o) := by
  intro m hm
  cases m with
  | plain => trivial
  | take =>
    obtain ⟨i, o, ha, -⟩ := hm
    cases ha
  | cancel =>
    rintro ⟨u, i, nodes, hu⟩
    rcases hu with hu | hu <;> rw [h.role r u] at hu <;> cases hu
  | _ =>
    obtain ⟨u, o, b, i, nodes, ha, -⟩ := hm
    cases ha

omit [DecidableEq τ] in
theorem enter_submitting (p : Pool τ α κ) (o : Oracle) {c : Call α κ} (hc : c.submit? = none) :
    (enter p o c).submitting = false := by
  cases c with
  | submitTask r arg cb => cases hc
  | submitBatch b =>
    have hv : b.validate = none := hc
    simp only [enter, hv]
    split <;> rfl
  | wakeUp r => rfl
  | cancel r =>
    simp only [enter]
    split <;> rfl

theorem exec_flags {s s' : PoolSys τ α κ} {as : List (Act τ α κ)} (h : exec PoolSys.step s as = some s') :
    s'.pool.isRunning = s.pool.isRunning ∧ s'.pool.isDestroying = s.pool.isDestroying :=
  exec_inv' (I := fun u => u.pool.isRunning = s.pool.isRunning ∧ u.pool.isDestroying = s.pool.isDestroying)
    (fun _ _ _ hi hs => ⟨(step_flags hs).1.trans hi.1, (step_flags hs).2.trans hi.2⟩) ⟨rfl, rfl⟩ h

theorem Tidy.complete {s s' : PoolSys τ α κ} {t : τ} {c : Call α κ} (h : Tidy s)
    (hrun : Complete s t c s') (hf : Fresh s c) : Tidy s' := by
  obtain ⟨⟨as, has, he⟩, hquiet⟩ := hrun
  obtain ⟨hrunning, halive⟩ := exec_flags he
  obtain ⟨s₁, hcall, he⟩ := exec_cons.1 he
  have haccount : ∀ r, (s₁.view r).Account := fun r =>
    account_step (h.account r) h.tracked (careful_call h.quiet t c {} r) hcall
  suffices hfin : (∀ u, Tracked s' u) ∧ s'.pool.Sized ∧ ∀ r, (s'.view r).Account from
    ⟨hquiet, hrunning.trans h.running, halive.trans h.alive, hfin.1, hfin.2.1, hfin.2.2⟩
  cases hc : c.submit? with
  | some b =>
    have hsub := h.ready.submitting hc hcall
    obtain ⟨hfin, hacc⟩ := exec_inv (I := fun u => Submitting s t b u ∧ ∀ r, (u.view r).Account)
      (fun u a u' hi ha (hs : PoolSys.step u a = some u') => ⟨hi.1.step h.quiet.workers ha hs, fun r =>
        account_step (hi.2 r) hi.1.tracked (hi.1.careful h (hf b hc) ha r) hs⟩)
      ⟨hsub, haccount⟩ (Along.of_forall has) he
    exact ⟨hfin.tracked, hfin.sized, hacc⟩
  | none =>
    have hserve : Serving s t s₁ := by
      have htracked := tracked_step h.tracked hcall
      cases step_cases hcall with
      | call u c o hu =>
        refine ⟨?_, fun v hv => ?_, htracked, h.sized, haccount⟩
        · rw [setThread_threads, if_pos rfl]
          exact enter_submitting _ _ hc
        · rw [setThread_threads, if_neg hv]
    have hfin := exec_inv (I := Serving s t)
      (fun u a u' hi ha (hs : PoolSys.step u a = some u') => hi.step h.quiet ha hs) hserve
      (Along.of_forall has) he
    exact ⟨hfin.tracked, hfin.sized, hfin.account⟩

/-- A submission of an id with outstanding tasks puts its tasks on another worker. -/
theorem Tidy.misplaced {s s' : PoolSys τ α κ} {t : τ} {c : Call α κ} (h : Tidy s)
    (hrun : Complete s t c s') (hf : ¬ Fresh s c) : ¬ s'.pool.Placed := by
  obtain ⟨b, hc, hctx, i₀, hi₀⟩ : ∃ b, c.submit? = some b ∧ s.pool.findReqContext b.requestId ≠ none ∧
      ∃ i, Selectable s.pool i := by simpa [Fresh] using hf
  obtain ⟨⟨as, has, he⟩, hquiet⟩ := hrun
  obtain ⟨s₁, hcall, he⟩ := exec_cons.1 he
  have hfin := exec_inv (I := Submitting s t b)
    (fun u a u' hi ha (hs : PoolSys.step u a = some u') => hi.step h.quiet.workers ha hs)
    (h.ready.submitting hc hcall) (Along.of_forall has) he
  -- the call has returned, and not NULL
  have hphase := hfin.phase
  rcases hquiet.calls t with ht | ⟨ret, ht⟩ <;> rw [ht] at hphase
  · exact hphase.elim
  cases ret with
  | null => exact absurd hi₀ (hphase.1 i₀)
  | int => exact hphase.elim
  | ids ids =>
    obtain ⟨i, nodes, hne, hreq, hsel, ⟨size, hw⟩, hfind⟩ := hphase
    obtain ⟨c₀, hc₀, hq, -⟩ := (h.cases b.requestId).resolve_left fun hn => by
      rw [Pool.findReqContext_eq, hn.1] at hctx
      exact hctx rfl
    obtain ⟨c₁, hc₁, hidx⟩ := hfind c₀ (by rw [Pool.findReqContext_eq, hc₀]; rfl)
    obtain ⟨task, htask⟩ := List.exists_mem_of_ne_nil nodes hne
    intro hplaced
    have hi := hplaced i task (by rw [hw, Function.update_self]; simp [htask])
    rw [hreq task htask, hc₁] at hi
    obtain rfl : c₁.workerIdx = i := Option.some.inj hi
    -- the worker of the context has a task queued, so it cannot be selected
    rw [← hidx] at hq
    obtain ⟨hs, hlt⟩ := h.sized c₁.workerIdx
    rw [Selectable, hs, UInt32.count_eq_zero hlt, List.length_eq_zero_iff] at hsel
    exact hq (by rw [Pool.queued, hsel]; rfl)

/-- A run of complete operations from `s`: the calls, and the state each of them leaves. -/
def SeqRun : PoolSys τ α κ → List (τ × Call α κ × PoolSys τ α κ) → Prop
  | _, [] => True
  | s, (t, c, s') :: ops => Complete s t c s' ∧ SeqRun s' ops

/-- Every operation is fresh in the state it starts in. -/
def AllFresh : PoolSys τ α κ → List (τ × Call α κ × PoolSys τ α κ) → Prop
  | _, [] => True
  | s, (_, c, s') :: ops => Fresh s c ∧ AllFresh s' ops

theorem Tidy.placed_iff {s : PoolSys τ α κ} {ops : List (τ × Call α κ × PoolSys τ α κ)} (h : Tidy s)
    (hrun : SeqRun s ops) : (∀ op ∈ ops, op.2.2.pool.Placed) ↔ AllFresh s ops := by
  induction ops generalizing s with
  | nil => simp [AllFresh]
  | cons op ops ih =>
    obtain ⟨t, c, s'⟩ := op
    obtain ⟨hop, hrun⟩ := hrun
    constructor
    · intro hp
      have hf : Fresh s c := by
        by_contra hf
        exact h.misplaced hop hf (hp _ (List.mem_cons_self ..))
      exact ⟨hf, (ih (h.complete hop hf) hrun).1 fun op hop => hp op (List.mem_cons_of_mem _ hop)⟩
    · rintro ⟨hf, hall⟩ op hmem
      have hs' := h.complete hop hf
      rcases List.mem_cons.1 hmem with rfl | hmem
      · exact hs'.placed
      · exact (ih hs' hrun).2 hall op hmem

/-- In a run of complete operations every queued task stays where a wake-up finds it if and only if no
operation submits tasks of an id that has a context while a worker with an empty queue is there to take
them. -/
theorem seqRun_placed_iff {ops : List (τ × Call α κ × PoolSys τ α κ)} (hrun : SeqRun start ops) :
    (∀ op ∈ ops, op.2.2.pool.Placed) ↔ AllFresh start ops :=
  Tidy.start.placed_iff hrun

/-! ### Two submissions of one id -/

instance (t : τ) (a : Act τ α κ) : Decidable (OpAct t a) :=
  match a with
  | .call .. => inferInstanceAs (Decidable False)
  | .thread u o => inferInstanceAs (Decidable (u = t ∧ o.ok = true ∧ o.okNode = true))
  | .worker .. => inferInstanceAs (Decidable True)

/-- Submits one task of request 7. -/
def submitSeven : Call Unit Unit := .submitTask 7 () none

/-- Call 0 has put its task on worker 0. -/
def afterFirst : PoolSys (Fin 2) Unit Unit :=
  last PoolSys.step start (.call 0 submitSeven {} :: List.replicate 5 (.thread 0 {})) (by decide +kernel)

/-- Call 1 has put its task on worker 1. -/
def afterSecond : PoolSys (Fin 2) Unit Unit :=
  last PoolSys.step afterFirst (.call 1 submitSeven {} :: List.replicate 6 (.thread 1 {}))
    (by decide +kernel)

/-- Call 1 has woken the request and worker 0 has executed its task. -/
def afterWake : PoolSys (Fin 2) Unit Unit :=
  last PoolSys.step afterFirst (.call 1 (.wakeUp 7) {} :: List.replicate 3 (.thread 1 {}) ++
    List.replicate 8 (.worker 0 {})) (by decide +kernel)

theorem afterFirst_complete : Complete start 0 submitSeven afterFirst where
  run := ⟨_, by decide, exec_last _⟩
  quiet := ⟨fun t => by
    match t with
    | 0 => exact .inr ⟨.ids [1], by decide +kernel⟩
    | 1 => exact .inl (by decide +kernel), by unfold Pool.Idle; decide +kernel⟩

theorem afterSecond_complete : Complete afterFirst 1 submitSeven afterSecond where
  run := ⟨_, by decide, exec_last _⟩
  quiet := ⟨fun t => by
    match t with
    | 0 => exact .inr ⟨.ids [1], by decide +kernel⟩
    | 1 => exact .inr ⟨.ids [2], by decide +kernel⟩, by unfold Pool.Idle; decide +kernel⟩

theorem afterWake_complete : Complete afterFirst 1 (.wakeUp 7) afterWake where
  run := ⟨_, by decide, exec_last _⟩
  quiet := ⟨fun t => by
    match t with
    | 0 => exact .inr ⟨.ids [1], by decide +kernel⟩
    | 1 => exact .inr ⟨.int 0, by decide +kernel⟩, by unfold Pool.Idle; decide +kernel⟩

theorem afterWake_placed : afterWake.pool.Placed := by
  have hrun : SeqRun start [((0 : Fin 2), submitSeven, afterFirst), (1, .wakeUp 7, afterWake)] :=
    ⟨afterFirst_complete, afterWake_complete, trivial⟩
  have hplaced := (seqRun_placed_iff hrun).2 ⟨fun _ _ => .inl rfl, fun _ h => (by cases h), trivial⟩
  exact hplaced (1, .wakeUp 7, afterWake) (List.mem_cons_of_mem _ (List.mem_cons_self ..))

/-- The second task is queued on worker 1, the context of the request is bound to worker 0. -/
theorem afterSecond_misplaced :
    SeqRun start [((0 : Fin 2), submitSeven, afterFirst), (1, submitSeven, afterSecond)] ∧
      ¬ afterSecond.pool.Placed := by
  refine ⟨⟨afterFirst_complete, afterSecond_complete, trivial⟩, ?_⟩
  unfold Pool.Placed
  decide +kernel

end PoolSys
end OsTransport
