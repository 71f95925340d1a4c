import OsTransport.Callbacks
import OsTransport.Lib.Counter

/-!
# The batch callback

`Pool.uncounted` counts the tasks of a batch that `pending_count` still has to count. The batch callback is called when the
context of the batch is counted down to 0, so it is called once and at the end as long as every task of the batch is
counted down on that context (`CountedDown`): `BatchPhase` says how far the batch has come, `BatchPhase.step` that every step keeps it,
`batchCb_once` what that means for the callback.
-/

namespace OsTransport
open Lts

namespace WorkerPc
variable {τ α κ : Type}

/-- 1 while the worker has a task of the call `t` and has not counted it down. -/
def uncounted [DecidableEq τ] (t : τ) : WorkerPc τ α κ → Nat
  | .func task | .complete task | .find task | .dec task _ => if task.owner = t then 1 else 0
  | .wait | .batch .. | .remove _ | .finish _ | .exited => 0

theorem uncounted_eq_zero [DecidableEq τ] {t : τ} {pc : WorkerPc τ α κ} (h : ∀ task ∈ pc.holding, task.owner ≠ t) :
    pc.uncounted t = 0 := by
  cases pc with
  | func task | complete task | find task => exact if_neg (h task rfl)
  | dec task x => exact if_neg (h task rfl)
  | _ => rfl

end WorkerPc

namespace Pool
variable {τ α κ : Type} [DecidableEq τ] {p p' : Pool τ α κ} {t u : τ} {i : Fin 64} {o : Oracle}

/-- The tasks of the call `t` on worker `i` that have not been counted down. -/
def uncounted (p : Pool τ α κ) (t : τ) (i : Fin 64) : Nat :=
  ((p.workers i).queue.filter fun task => task.owner == t).length + (p.workers i).pc.uncounted t

/-- A task of the call `t` was cancelled. -/
def Spoilt (p : Pool τ α κ) (t : τ) : Prop := ∃ e ∈ p.hist.cancelled, ∃ task ∈ e.2.2, task.owner = t

instance (p : Pool τ α κ) (t : τ) : Decidable (p.Spoilt t) :=
  inferInstanceAs (Decidable (∃ e ∈ p.hist.cancelled, ∃ task ∈ e.2.2, task.owner = t))

theorem uncounted_eq {w : WorkerThread τ α κ} (hw : p'.workers = Function.update p.workers i w) (t : τ) (j : Fin 64) :
    p'.uncounted t j = if j = i then (w.queue.filter fun task => task.owner == t).length + w.pc.uncounted t
      else p.uncounted t j := by
  unfold uncounted
  rw [hw, Function.update_apply]
  split <;> rfl

theorem uncounted_same {w : WorkerThread τ α κ} (hw : p'.workers = Function.update p.workers i w)
    (hq : w.queue = (p.workers i).queue) (hpc : w.pc.uncounted t = (p.workers i).pc.uncounted t) (j : Fin 64) :
    p'.uncounted t j = p.uncounted t j := by
  rw [uncounted_eq hw, hq, hpc]
  split
  · rename_i hj
    rw [hj, uncounted]
  · rfl

/-- A worker counts its tasks down at `dec`, if it does not miss the context. -/
theorem uncounted_workerStep (hs : WorkerStep p i o p')
    (hfind : ∀ task, (p.workers i).pc = .find task → task.owner = t → p.findReqContext task.requestId ≠ none)
    (hdec : ∀ task x, (p.workers i).pc = .dec task x → task.owner ≠ t) (j : Fin 64) : p'.uncounted t j = p.uncounted t j := by
  have hsame : ∀ {w : WorkerThread τ α κ} {pc : WorkerPc τ α κ}, p'.workers = Function.update p.workers i w →
      (p.workers i).pc = pc → w.queue = (p.workers i).queue → w.pc.uncounted t = pc.uncounted t →
      p'.uncounted t j = p.uncounted t j := by
    rintro w _ hw rfl hq hpc
    exact uncounted_same hw hq hpc j
  cases hs with
  | park st pc hpc hq hpark =>
    refine hsame rfl hpc ?_ ?_
    · rfl
    · rcases hpark with ⟨rfl, -⟩ | ⟨rfl, -⟩ <;> rfl
  | take task rest hpc hr hpop =>
    rw [uncounted_eq (i := i) rfl]
    split
    swap
    · rfl
    rename_i hj
    subst hj
    rw [uncounted, hpc]
    simp only [WorkerPc.uncounted]
    obtain ⟨a, b, hq, rfl, -⟩ := popFirst_eq_some.1 hpop
    rw [hq, List.filter_append, List.filter_append, List.filter_cons, List.length_append, List.length_append]
    by_cases hu : task.owner = t
    · simp only [hu, beq_self_eq_true, if_true, List.length_cons]
      omega
    · simp only [beq_eq_false_iff_ne.2 hu, if_neg hu, Bool.false_eq_true, if_false]
  | func task hpc =>
    refine hsame rfl hpc ?_ ?_ <;> rfl
  | complete task cbs hpc =>
    refine hsame rfl hpc ?_ ?_ <;> rfl
  | findSome task ctx hpc hf =>
    refine hsame rfl hpc ?_ ?_ <;> rfl
  | findNone task hpc hf =>
    refine hsame rfl hpc ?_ ?_
    · rfl
    · exact (if_neg fun hu => hfind task hpc hu hf).symm
  | dec task ctx c hpc hd =>
    refine hsame rfl hpc ?_ ?_
    · rfl
    · rw [WorkerPc.uncounted, if_neg (hdec task ctx hpc)]
      split <;> rfl
  | decDangling task ctx hpc hd =>
    refine hsame rfl hpc ?_ ?_
    · rfl
    · rw [WorkerPc.uncounted, if_neg (hdec task ctx hpc)]
      split <;> rfl
  | batch task cb cbs hpc =>
    refine hsame rfl hpc ?_ ?_ <;> rfl
  | remove task hpc =>
    refine hsame rfl hpc ?_ ?_ <;> rfl
  | finish task st pc hpc hpark =>
    refine hsame rfl hpc ?_ ?_
    · rfl
    · rcases hpark with ⟨rfl, -⟩ | ⟨rfl, -⟩ <;> rfl

theorem uncounted_count {task : ThreadPoolTask τ α κ} {x : τ} {pc : WorkerPc τ α κ} (hpc : (p.workers i).pc = .dec task x)
    (hu : task.owner = t) (hw : p'.workers = Function.update p.workers i { p.workers i with pc := pc })
    (hpc' : pc.uncounted t = 0) : p'.uncounted t i + 1 = p.uncounted t i ∧ ∀ j, j ≠ i → p'.uncounted t j = p.uncounted t j := by
  refine ⟨?_, fun j hj => by rw [uncounted_eq hw, if_neg hj]⟩
  rw [uncounted_eq hw, if_pos rfl, hpc', uncounted, hpc]
  simp only [WorkerPc.uncounted, hu, if_true]

theorem uncounted_of_mutexFree {w : WorkerThread τ α κ} (h : w.mutexFree = true) : w.pc.uncounted t = 0 := by
  unfold WorkerThread.mutexFree at h
  split at h
  · rename_i hpc
    rw [hpc]
    rfl
  · rename_i hpc
    rw [hpc]
    rfl
  · cases h

/-- What a section of a call leaves of the tasks of `t`: as many as before, unless it attaches or cancels them. -/
theorem uncounted_threadStep {pc pc' : Pc τ α κ} (hs : ThreadStep p u o pc p' pc') (hl : pc.Local u) :
    ((∀ j, p'.uncounted t j = p.uncounted t j) ∧ (p'.Spoilt t ↔ p.Spoilt t) ∧ (u = t → pc'.accepted = pc.accepted)) ∨
      (u = t ∧ ∃ b i nodes, pc = .attach b i nodes ∧ pc' = .findCtx b i nodes ∧ (u, i, nodes) ∈ p'.hist.attached ∧
        (p'.Spoilt t ↔ p.Spoilt t) ∧ ∀ j, p'.uncounted t j = p.uncounted t j + if j = i then nodes.length else 0) ∨
      ∃ r x i, pc = .cancelQueue r x i ∧ (∃ task ∈ p.queued i r, task.owner = t) ∧ p'.Spoilt t ∧
        ∀ j, p'.uncounted t j = if j = i then ((p.workers i).queue.filter fun task =>
          task.owner == t && !(task.requestId == r)).length else p.uncounted t j := by
  cases hs with
  | attach b i nodes size hm hs =>
    by_cases hu : u = t
    · refine .inr (.inl ⟨hu, b, i, nodes, rfl, rfl, List.mem_append_right _ (List.mem_singleton_self _), Iff.rfl, fun j => ?_⟩)
      have hnodes : nodes.filter (fun task => task.owner == t) = nodes :=
        List.filter_eq_self.2 fun task hm => by simpa [← hu] using (hl.1.of_mem hm).1
      rw [uncounted_eq (i := i) rfl]
      split
      · rename_i hj
        rw [hj, uncounted, List.filter_append, hnodes, List.length_append]
        exact Nat.add_right_comm ..
      · rfl
    · refine .inl ⟨fun j => ?_, Iff.rfl, fun htu => absurd htu hu⟩
      have hnodes : nodes.filter (fun task => task.owner == t) = [] :=
        List.filter_eq_nil_iff.2 fun task hm => by simpa [(hl.1.of_mem hm).1] using hu
      rw [uncounted_eq (i := i) rfl]
      split
      · rename_i hj
        rw [hj, uncounted, List.filter_append, hnodes, List.append_nil]
      · rfl
  | wakeSet r i hm =>
    refine .inl ⟨uncounted_same (i := i) rfl ?_ ?_, Iff.rfl, fun _ => rfl⟩ <;> rfl
  | cancelQueue r x i hm =>
    by_cases hmine : ∃ task ∈ p.queued i r, task.owner = t
    · refine .inr (.inr ⟨r, x, i, rfl, hmine, ?_, fun j => ?_⟩)
      · obtain ⟨task, htask, hu⟩ := hmine
        exact ⟨(i, r, p.queued i r), List.mem_append_right _ (List.mem_singleton_self _), task, htask, hu⟩
      · rw [uncounted_eq (i := i) rfl, List.filter_filter]
        change (if j = i then _ + (p.workers i).pc.uncounted t else _) = _
        rw [uncounted_of_mutexFree hm]
        rfl
    · refine .inl ⟨fun j => ?_, ?_, fun _ => by split <;> rfl⟩
      · have hkept : ((p.workers i).queue.filter fun task => !(task.requestId == r)).filter (fun task => task.owner == t) =
            (p.workers i).queue.filter fun task => task.owner == t := by
          rw [List.filter_filter]
          refine List.filter_congr fun task htask => ?_
          by_cases hr : task.requestId = r
          · have : task.owner ≠ t := fun hu => hmine ⟨task, List.mem_filter.2 ⟨htask, by simpa using hr⟩, hu⟩
            simp [this]
          · simp [hr]
        rw [uncounted_eq (i := i) rfl]
        split
        · rename_i hj
          rw [hj, uncounted, hkept]
        · rfl
      · simp only [Spoilt, List.mem_append, List.mem_singleton]
        constructor
        · rintro ⟨e, he | rfl, hmem⟩
          · exact ⟨e, he, hmem⟩
          · exact absurd hmem hmine
        · rintro ⟨e, he, hmem⟩
          exact ⟨e, .inl he, hmem⟩
  | cancelUpdate => exact .inl ⟨fun j => by split <;> rfl, by split <;> exact Iff.rfl, fun _ => rfl⟩
  | cancelUpdateDangling => exact .inl ⟨fun j => by split <;> rfl, by split <;> exact Iff.rfl, fun _ => rfl⟩
  | select b nodes i best minLoad hm =>
    refine .inl ⟨fun _ => rfl, Iff.rfl, fun _ => ?_⟩
    rcases p.selectStep_cases b nodes i best minLoad with ⟨j, best', m', h⟩ | ⟨j, h⟩ | h <;> rw [h]
    · rfl
    · unfold afterSelect
      split <;> rfl
    · rfl
  | create b w nodes arg ha =>
    refine .inl ⟨fun _ => rfl, Iff.rfl, fun _ => ?_⟩
    unfold afterCreate
    split
    · rfl
    · split <;> rfl
  | _ => exact .inl ⟨fun _ => rfl, Iff.rfl, fun _ => rfl⟩

end Pool

namespace Pc
variable {τ α κ : Type}

/-- The context that a call has a pointer to. -/
def ctx? : Pc τ α κ → Option τ
  | .bump _ _ ctx | .wakeRead _ ctx | .cancelRead _ ctx | .cancelQueue _ ctx _ | .cancelUpdate _ ctx _ => some ctx
  | _ => none

end Pc

namespace Pool
variable {τ α κ : Type} [DecidableEq τ] {p p' : Pool τ α κ} {t u : τ} {o : Oracle}

theorem threadStep_ctx {pc pc' : Pc τ α κ} (hs : ThreadStep p u o pc p' pc') {x : τ} (hx : pc'.ctx? = some x) :
    pc.ctx? = some x ∨ ∃ r c, p.findReqContext r = some c ∧ c.owner = x := by
  cases hs with
  | select b nodes i best minLoad hm =>
    rcases p.selectStep_cases b nodes i best minLoad with ⟨j, best', m', h⟩ | ⟨j, h⟩ | h <;> rw [h] at hx
    · cases hx
    · unfold afterSelect at hx
      split at hx <;> cases hx
    · cases hx
  | create b w nodes arg ha =>
    unfold afterCreate at hx
    split at hx
    · cases hx
    · split at hx <;> cases hx
  | findSome b i nodes c hf => exact .inr ⟨_, c, hf, Option.some.inj hx⟩
  | wakeFindSome r c hf => exact .inr ⟨_, c, hf, Option.some.inj hx⟩
  | cancelFindSome r c hf => exact .inr ⟨_, c, hf, Option.some.inj hx⟩
  | cancelRead r ctx => exact .inl hx
  | cancelQueue r ctx i hm =>
    split at hx
    · exact .inl hx
    · cases hx
  | _ => cases hx

theorem workerStep_holding {i j : Fin 64} (hs : WorkerStep p i o p') {task : ThreadPoolTask τ α κ}
    (ht : task ∈ (p'.workers j).pc.holding) : task ∈ (p.workers j).pc.holding ∨ task ∈ (p.workers j).queue := by
  rcases eq_or_ne j i with rfl | hj
  swap
  · rw [workers_of_ne hs hj] at ht
    exact .inl ht
  have hkeep : ∀ {x : ThreadPoolTask τ α κ} {pc : WorkerPc τ α κ}, (p.workers j).pc = pc → pc.holding = some x →
      x = task → task ∈ (p.workers j).pc.holding ∨ task ∈ (p.workers j).queue := by
    rintro x _ rfl hx rfl
    exact .inl hx
  cases hs with
  | park st pc hpc hq hpark => rcases hpark with ⟨rfl, -⟩ | ⟨rfl, -⟩ <;> simp [WorkerPc.holding] at ht
  | finish x st pc hpc hpark => rcases hpark with ⟨rfl, -⟩ | ⟨rfl, -⟩ <;> simp [WorkerPc.holding] at ht
  | take x rest hpc hr hpop =>
    simp only [setWorker_workers_self, WorkerPc.holding, Option.mem_def, Option.some.injEq] at ht
    subst ht
    exact .inr ((mem_popFirst hpop).2 (.inl rfl))
  | dec x ctx c hpc hd =>
    rw [setPc_workers_self] at ht
    refine hkeep hpc rfl ?_
    split at ht <;> exact Option.some.inj ht
  | decDangling x ctx hpc hd =>
    rw [setPc_workers_self] at ht
    refine hkeep hpc rfl ?_
    split at ht <;> exact Option.some.inj ht
  | _ =>
    simp only [setPc_workers_self, WorkerPc.holding, Option.mem_def, Option.some.injEq] at ht
    exact hkeep (by assumption) rfl ht

theorem threadStep_cancelUpdate {pc : Pc τ α κ} {r : UInt32} {x : τ} {n : UInt32}
    (hs : ThreadStep p u o pc p' (.cancelUpdate r x n)) :
    ∃ i, p.queued i r ≠ [] ∧ p'.hist.cancelled = p.hist.cancelled ++ [(i, r, p.queued i r)] := by
  generalize hpc : Pc.cancelUpdate r x n = pc' at hs
  cases hs with
  | select b nodes i best minLoad hm =>
    rcases p.selectStep_cases b nodes i best minLoad with ⟨j, best', m', h⟩ | ⟨j, h⟩ | h <;> rw [h] at hpc
    · cases hpc
    · unfold afterSelect at hpc
      split at hpc <;> cases hpc
    · cases hpc
  | create b w nodes arg ha =>
    unfold afterCreate at hpc
    split at hpc
    · cases hpc
    · split at hpc <;> cases hpc
  | cancelQueue k ctx i hm =>
    split at hpc
    · rename_i hn
      cases hpc
      refine ⟨i, fun hnil => ?_, rfl⟩
      rw [hnil] at hn
      simp at hn
    · cases hpc
  | _ => cases hpc

theorem workerStep_current {i j : Fin 64} (hs : WorkerStep p i o p') {task : ThreadPoolTask τ α κ}
    (ht : task ∈ (p'.workers j).pc.current) : task ∈ (p.workers j).pc.current ∨ task ∈ (p.workers j).queue := by
  rcases eq_or_ne j i with rfl | hj
  swap
  · rw [workers_of_ne hs hj] at ht
    exact .inl ht
  cases hs with
  | take x rest hpc hr hpop =>
    rw [setWorker_workers_self] at ht
    obtain rfl := List.mem_singleton.1 ht
    exact .inr ((mem_popFirst hpop).2 (.inl rfl))
  | park st pc hpc hq hpark => rcases hpark with ⟨rfl, -⟩ | ⟨rfl, -⟩ <;> simp [WorkerPc.current] at ht
  | finish x st pc hpc hpark => rcases hpark with ⟨rfl, -⟩ | ⟨rfl, -⟩ <;> simp [WorkerPc.current] at ht
  | dec x ctx c hpc hd =>
    rw [setPc_workers_self] at ht
    split at ht <;> cases ht
  | decDangling x ctx hpc hd =>
    rw [setPc_workers_self] at ht
    split at ht <;> cases ht
  | _ =>
    rw [setPc_workers_self] at ht
    cases ht

omit [DecidableEq τ] in
theorem NoNew.ctxs {r : UInt32} (h : NoNew p p') {c : RequestContext τ κ} (hc : c ∈ p'.ctxs r) :
    ∃ c₀ ∈ p.ctxs r, SameButCount c₀ c := by
  obtain ⟨c₀, hc₀, hsame⟩ := h _ c (List.mem_filter.1 hc).1
  refine ⟨c₀, List.mem_filter.2 ⟨hc₀, ?_⟩, hsame⟩
  rw [← hsame.2.1]
  exact (List.mem_filter.1 hc).2

end Pool

namespace PoolSys
variable {τ α κ : Type} [DecidableEq τ] {s s' : PoolSys τ α κ} {w : Watch τ α κ} {a : Act τ α κ} {t : τ} {b : Submit α κ}
  {r : UInt32} {cb : κ}

/-- Nobody has a pointer to a context of `t` or a task of `t` before the tasks are attached. -/
structure Unseen (t : τ) (s : PoolSys τ α κ) : Prop where
  ptr : ∀ u, (s.threads u).ctx? = some t → (s.threads t).accepted = true
  holding : ∀ i, ∀ task ∈ (s.pool.workers i).pc.holding, task.owner = t → (s.threads t).accepted = true

omit [DecidableEq τ] in
theorem enter_ctx (p : Pool τ α κ) (o : Oracle) (c : Call α κ) : (enter p o c).ctx? = none := by
  cases c with
  | submitTask r arg cb =>
    simp only [enter]
    split <;> rfl
  | submitBatch b =>
    simp only [enter]
    split
    · rfl
    split
    · rfl
    split <;> rfl
  | wakeUp r => rfl
  | cancel r =>
    simp only [enter]
    split <;> rfl

omit [DecidableEq τ] in
theorem unseen_start (t : τ) : Unseen t (start : PoolSys τ α κ) where
  ptr u hu := by cases hu
  holding i task hi := by cases hi

theorem Unseen.step (h : Unseen t s) (ho : Owned t s w) (ht : ∀ u, Tracked s u) (hs : s.step a = some s') :
    Unseen t s' := by
  have hacc : (s.threads t).accepted = true → (s'.threads t).accepted = true := accepted_step ht hs
  cases step_cases hs with
  | worker i o p hp =>
    refine ⟨h.ptr, fun j task hj hu => ?_⟩
    rcases Pool.workerStep_holding hp hj with hj | hj
    · exact h.holding j task hj hu
    · subst hu
      exact ((ht task.owner).queued hj).1
  | call v c o hv =>
    refine ⟨fun u hu => ?_, fun j task hj hu => hacc (h.holding j task hj hu)⟩
    rw [setThread_threads] at hu
    split at hu
    · rw [enter_ctx] at hu
      cases hu
    · exact hacc (h.ptr u hu)
  | thread v o p pc hp =>
    refine ⟨fun u hu => ?_, fun j task hj hu => ?_⟩
    · rw [setThread_threads] at hu
      split at hu
      · rename_i huv
        subst huv
        rcases Pool.threadStep_ctx hp hu with hx | ⟨k, c, hf, hc⟩
        · exact hacc (h.ptr u hx)
        · exact hacc (ho.ctx _ c (List.mem_of_find?_eq_some hf) hc)
      · exact hacc (h.ptr u hu)
    · rw [setThread_pool, (Pool.threadStep_worker hp j).1] at hj
      exact hacc (h.holding j task hj hu)

/-- A submission of the request is under way, or a task of it is queued or with a worker. -/
def InUse (r : UInt32) (s : PoolSys τ α κ) : Prop :=
  (∃ u, ∃ b ∈ (s.threads u).submit?, b.requestId = r) ∨
    ∃ i, (∃ task ∈ (s.pool.workers i).queue, task.requestId = r) ∨
      ∃ task ∈ (s.pool.workers i).pc.holding, task.requestId = r

instance [Fintype τ] (r : UInt32) (s : PoolSys τ α κ) : Decidable (InUse r s) :=
  inferInstanceAs (Decidable (_ ∨ _))

/-- A call does not submit tasks of a request that is in use. -/
def Exclusive (r : UInt32) (s : PoolSys τ α κ) : Act τ α κ → Prop
  | .call _ c _ => ∀ b ∈ c.submit?, b.requestId = r → ¬InUse r s
  | _ => True

instance [Fintype τ] (r : UInt32) (s : PoolSys τ α κ) : (a : Act τ α κ) → Decidable (Exclusive r s a)
  | .call .. => inferInstanceAs (Decidable (∀ _ ∈ _, _ → _))
  | .thread .. | .worker .. => isTrue trivial

/-- Where a worker is done with a task of the call `t`, the context it finds, and the one it counts down, is the one that
`t` inserted. -/
def Counts (t : τ) (p : Pool τ α κ) : WorkerPc τ α κ → Prop
  | .find task => task.owner = t → ∃ c ∈ p.findReqContext task.requestId, c.owner = t
  | .dec task ctx => task.owner = t → p.deref task.requestId ctx ≠ none
  | _ => True

instance (t : τ) (p : Pool τ α κ) : (pc : WorkerPc τ α κ) → Decidable (Counts t p pc)
  | .find _ => inferInstanceAs (Decidable (_ → ∃ _ ∈ _, _))
  | .dec .. => inferInstanceAs (Decidable (_ → _ ≠ _))
  | .wait | .func _ | .complete _ | .batch .. | .remove _ | .finish _ | .exited => isTrue trivial

/-- The tasks of the call `t` are counted down on its own context, and that is gone before tasks of the request are
submitted again. -/
def CountedDown (t : τ) (r : UInt32) (s : PoolSys τ α κ) : Act τ α κ → Prop
  | .worker i _ => Counts t s.pool (s.pool.workers i).pc
  | .call _ c _ => ∀ b ∈ c.submit?, b.requestId = r → ∀ c ∈ s.pool.ctxs r, c.owner ≠ t
  | .thread .. => True

instance (t : τ) (r : UInt32) (s : PoolSys τ α κ) : (a : Act τ α κ) → Decidable (CountedDown t r s a)
  | .worker .. => inferInstanceAs (Decidable (Counts ..))
  | .call .. => inferInstanceAs (Decidable (∀ _ ∈ _, _ → _))
  | .thread .. => isTrue trivial

/-! ### The request while the batch has a context -/

/-- The call `t` is alone with the request. -/
structure Sole (t : τ) (r : UInt32) (s : PoolSys τ α κ) : Prop where
  queue : ∀ i, ∀ task ∈ (s.pool.workers i).queue, task.requestId = r → task.owner = t
  holding : ∀ i, ∀ task ∈ (s.pool.workers i).pc.holding, task.requestId = r → task.owner = t
  submit : ∀ u, ∀ b ∈ (s.threads u).submit?, b.requestId = r → u = t
  cancel : ∀ u n, s.threads u = .cancelUpdate r t n → s.pool.Spoilt t

/-- The call `t` has returned, and its context is gone. -/
structure Over (t : τ) (r : UInt32) (s : PoolSys τ α κ) : Prop where
  submit : (s.threads t).submit? = none
  ctx : ∀ c ∈ s.pool.ctxs r, c.owner ≠ t

theorem submit_none_step (hcalled : s.threads t ≠ .idle) (h : (s.threads t).submit? = none) (ht : ∀ u, Tracked s u)
    (hs : s.step a = some s') : (s'.threads t).submit? = none := by
  cases step_cases hs with
  | worker i o p hp => exact h
  | call u c o hu =>
    have htu : t ≠ u := fun htu => hcalled (htu ▸ hu)
    rw [setThread_threads, if_neg htu]
    exact h
  | thread u o p pc hp =>
    rw [setThread_threads]
    split
    · rename_i htu
      subst htu
      refine Option.eq_none_iff_forall_ne_some.2 fun b hb => ?_
      rw [(Pool.local_threadStep hp (ht t).made).2.1 b hb] at h
      cases h
    · exact h

theorem Over.step (h : Over t r s) (hcalled : s.threads t ≠ .idle) (ht : ∀ u, Tracked s u) (hs : s.step a = some s') :
    Over t r s' := by
  refine ⟨submit_none_step hcalled h.submit ht hs, fun c hc hu => ?_⟩
  have hold : Pool.NoNew s.pool s'.pool → False := fun hno => by
    obtain ⟨c₀, hc₀, hsame⟩ := hno.ctxs hc
    exact h.ctx c₀ hc₀ (hsame.1.symm.trans hu)
  cases step_cases hs with
  | worker i o p hp => exact hold hp.noNew
  | call u c o hu => exact hold (.of_eq rfl)
  | thread u o p pc hp =>
    rcases hp.noNew with hno | ⟨b', i, nodes, hpc, rfl, rfl⟩
    · exact hold hno
    · have hc : c ∈ (s.pool.insertReqContext (Pool.newContext u b' i)).ctxs r := hc
      rw [Pool.insertReqContext_ctxs] at hc
      split at hc
      · rcases List.mem_cons.1 hc with rfl | hc
        · obtain rfl : u = t := hu
          have := h.submit
          rw [hpc] at this
          cases this
        · exact h.ctx c hc hu
      · exact h.ctx c hc hu

theorem Sole.step (h : Sole t r s) (ht : ∀ u, Tracked s u) (hs : s.step a = some s')
    (hno : ∀ u c o, a = .call u c o → ∀ b ∈ c.submit?, b.requestId ≠ r) : Sole t r s' := by
  cases step_cases hs with
  | worker i o p hp =>
    refine ⟨fun j task hj => h.queue j task ((Pool.workerStep_queue hp).2 j task hj), fun j task hj hr => ?_, h.submit,
      fun u n hu => ?_⟩
    · rcases Pool.workerStep_holding hp hj with hj | hj
      · exact h.holding j task hj hr
      · exact h.queue j task hj hr
    · have hsame : p.hist.cancelled = s.pool.hist.cancelled := by cases hp <;> rfl
      rw [Pool.Spoilt, hsame]
      exact h.cancel u n hu
  | call u c o hu =>
    refine ⟨h.queue, h.holding, fun v b hb hr => ?_, fun v n hv => ?_⟩
    · rw [setThread_threads] at hb
      split at hb
      · exact absurd hr (hno u c o rfl b ((enter_local s.pool o c u).2.2.2 b hb))
      · exact h.submit v b hb hr
    · rw [setThread_threads] at hv
      split at hv
      · have := enter_ctx s.pool o c
        rw [hv] at this
        cases this
      · exact h.cancel v n hv
  | thread u o p pc hp =>
    have hloc := Pool.local_threadStep hp (ht u).made
    have hspoilt : s.pool.Spoilt t → p.Spoilt t := fun hsp => by
      rcases Pool.uncounted_threadStep hp (ht u).made with ⟨-, hiff, -⟩ | ⟨-, b, i, nodes, -, -, -, hiff, -⟩ | ⟨k, x, i, -, -, hsp', -⟩
      · exact hiff.2 hsp
      · exact hiff.2 hsp
      · exact hsp'
    refine ⟨fun j task hj hr => ?_, fun j task hj => ?_, fun v b hb hr => ?_, fun v n hv => ?_⟩
    · rcases Pool.threadStep_queue_attach hp hj with hj | ⟨b, i, nodes, hpc, hmem⟩
      · exact h.queue j task hj hr
      · have hmade := (ht u).made
        rw [hpc] at hmade
        obtain ⟨howner, hreq⟩ := hmade.1.of_mem hmem
        rw [howner]
        exact h.submit u b (by rw [hpc]; rfl) (hreq.symm.trans hr)
    · have hj : task ∈ (p.workers j).pc.holding := hj
      rw [(Pool.threadStep_worker hp j).1] at hj
      exact h.holding j task hj
    · rw [setThread_threads] at hb
      split at hb
      · rename_i hvu
        subst hvu
        exact h.submit v b (hloc.2.1 b hb) hr
      · exact h.submit v b hb hr
    · rw [setThread_threads] at hv
      split at hv
      · rename_i hvu
        subst hvu hv
        obtain ⟨i, hne, hcan⟩ := Pool.threadStep_cancelUpdate hp
        obtain ⟨task, htask⟩ := List.exists_mem_of_ne_nil _ hne
        refine ⟨(i, r, s.pool.queued i r), ?_, task, htask, ?_⟩
        · rw [setThread_pool, hcan]
          exact List.mem_append_right _ (List.mem_singleton_self _)
        · exact h.queue i task (List.mem_filter.1 htask).1 (s.pool.requestId_of_mem_queued htask)
      · exact hspoilt (h.cancel v n hv)

/-- What ties the contexts of the batch `b` of the call `t`, and the workers that count them down, to the call. -/
structure Tied (t : τ) (b : Submit α κ) (s : PoolSys τ α κ) : Prop where
  ctx : ∀ k, ∀ c ∈ s.pool.reqHash k, c.owner = t → c.requestId = b.requestId ∧ c.batchCb = b.batchCb ∧
    (s.threads t).submit? = none
  dec : ∀ i task x, (s.pool.workers i).pc = .dec task x → (task.owner = t ↔ x = t)
  alone : Sole t b.requestId s ∨ Over t b.requestId s

section
variable (hbatch : b.batch = true) (h : Tied t b s) (hm : MadeBy t b s) (ht : ∀ u, Tracked s u) (hs : s.step a = some s')
include h hm ht hs

include hbatch in
theorem Tied.ctx_step : ∀ k, ∀ c ∈ s'.pool.reqHash k, c.owner = t → c.requestId = b.requestId ∧ c.batchCb = b.batchCb ∧
    (s'.threads t).submit? = none := by
  intro k c hc hu
  have hold : ∀ c₀ ∈ s.pool.reqHash k, Pool.SameButCount c₀ c → c.requestId = b.requestId ∧ c.batchCb = b.batchCb ∧
      (s'.threads t).submit? = none := fun c₀ hc₀ hsame => by
    obtain ⟨hid, hcb, hsub⟩ := h.ctx k c₀ hc₀ (hsame.1.symm.trans hu)
    exact ⟨hsame.2.1.trans hid, hsame.2.2.2.trans hcb, submit_none_step hm.called hsub ht hs⟩
  have hnew : Pool.NoNew s.pool s'.pool → c.requestId = b.requestId ∧ c.batchCb = b.batchCb ∧
      (s'.threads t).submit? = none := fun hno => by
    obtain ⟨c₀, hc₀, hsame⟩ := hno k c hc
    exact hold c₀ hc₀ hsame
  cases step_cases hs with
  | worker i o p hp => exact hnew hp.noNew
  | call u c o hu => exact hnew (.of_eq rfl)
  | thread u o p pc hp =>
    rcases hp.noNew with hno | ⟨b', i, nodes, hpc, rfl, rfl⟩
    · exact hnew hno
    · change c ∈ Function.update s.pool.reqHash (hashReqId b'.requestId) _ k at hc
      rcases eq_or_ne k (hashReqId b'.requestId) with rfl | hk
      · rw [Function.update_self] at hc
        rcases List.mem_cons.1 hc with rfl | hc
        · obtain rfl : u = t := hu
          obtain rfl : b' = b := hm.submit b' (by rw [hpc]; rfl)
          refine ⟨rfl, if_pos hbatch, ?_⟩
          rw [setThread_threads, if_pos rfl]
          rfl
        · exact hold c hc ⟨rfl, rfl, rfl, rfl⟩
      · rw [Function.update_of_ne hk] at hc
        exact hold c hc ⟨rfl, rfl, rfl, rfl⟩

omit hm ht in
theorem Tied.dec_step (hc : CountedDown t b.requestId s a) :
    ∀ i task x, (s'.pool.workers i).pc = .dec task x → (task.owner = t ↔ x = t) := by
  intro j task x hj
  cases step_cases hs with
  | call u c o hu => exact h.dec j task x hj
  | thread u o p pc hp =>
    have hj : (p.workers j).pc = .dec task x := hj
    rw [(Pool.threadStep_worker hp j).1] at hj
    exact h.dec j task x hj
  | worker i o p hp =>
    have hj : (p.workers j).pc = .dec task x := hj
    rcases eq_or_ne j i with rfl | hji
    swap
    · rw [Pool.workers_of_ne hp hji] at hj
      exact h.dec j task x hj
    cases hp with
    | findSome y c hpc hf =>
      simp only [Pool.setPc_workers_self, WorkerPc.dec.injEq] at hj
      obtain ⟨rfl, rfl⟩ := hj
      simp only [CountedDown, Counts, hpc] at hc
      constructor
      · intro hu
        obtain ⟨c', hc', hu'⟩ := hc hu
        obtain rfl : c = c' := Option.some.inj (hf.symm.trans hc')
        exact hu'
      · intro hu
        have hmem := List.mem_of_find?_eq_some hf
        have hid : c.requestId = y.requestId := by simpa using List.find?_some hf
        have hreq := (h.ctx _ c hmem hu).1
        rcases h.alone with hsole | hover
        · exact hsole.holding j y (by rw [hpc]; rfl) (hid.symm.trans hreq)
        · refine absurd hu (hover.ctx c (List.mem_filter.2 ⟨?_, by simpa using hreq⟩))
          rwa [← hid, hreq] at hmem
    | dec y ctx c hpc hd =>
      simp only [Pool.setPc_workers_self] at hj
      split at hj <;> cases hj
    | decDangling y ctx hpc hd =>
      simp only [Pool.setPc_workers_self] at hj
      split at hj <;> cases hj
    | park st pc hpc hq hpark => rcases hpark with ⟨rfl, -⟩ | ⟨rfl, -⟩ <;> simp at hj
    | finish y st pc hpc hpark => rcases hpark with ⟨rfl, -⟩ | ⟨rfl, -⟩ <;> simp at hj
    | _ => simp at hj

theorem Tied.alone_step (hx : Exclusive b.requestId s a) (hc : CountedDown t b.requestId s a) :
    Sole t b.requestId s' ∨ Over t b.requestId s' := by
  rcases h.alone with hsole | hover
  swap
  · exact .inr (hover.step hm.called ht hs)
  by_cases hno : ∀ u c o, a = .call u c o → ∀ b' ∈ c.submit?, b'.requestId ≠ b.requestId
  · exact .inl (hsole.step ht hs hno)
  · -- the request is submitted again, so the batch is over
    push Not at hno
    obtain ⟨u, c, o, rfl, b', hb', hid⟩ := hno
    have hfree : ¬InUse b.requestId s := hx b' hb' hid
    refine .inr (Over.step ⟨?_, fun c' hc' => hc b' hb' hid c' hc'⟩ hm.called ht hs)
    refine Option.eq_none_iff_forall_ne_some.2 fun b'' hb'' => hfree (.inl ⟨t, b'', hb'', ?_⟩)
    rw [hm.submit b'' hb'']

include hbatch in
theorem Tied.step (hx : Exclusive b.requestId s a) (hc : CountedDown t b.requestId s a) : Tied t b s' where
  ctx := h.ctx_step hbatch hm ht hs
  dec := h.dec_step hs hc
  alone := h.alone_step hm ht hs hx hc

end
/-! ### Cancelled tasks -/

theorem Tracked.accepted_of_attached {v : Fin 64} {nodes : List (ThreadPoolTask τ α κ)} (h : Tracked s t)
    (hatt : (t, v, nodes) ∈ s.pool.hist.attached) : (s.threads t).accepted = true := by
  by_contra hacc
  have hatt := mem_lane_attached.2 hatt
  rw [(h.unused (by simpa using hacc)).attached] at hatt
  cases hatt

theorem Tracked.attached_unique {v v' : Fin 64} {nodes nodes' : List (ThreadPoolTask τ α κ)} (h : Tracked s t)
    (hatt : (t, v, nodes) ∈ s.pool.hist.attached) (hatt' : (t, v', nodes') ∈ s.pool.hist.attached) :
    v = v' ∧ nodes = nodes' := by
  obtain ⟨_, _, _, _, _, -, -, hsplit⟩ := h.split (h.accepted_of_attached hatt)
  have hatt := mem_lane_attached.2 hatt
  have hatt' := mem_lane_attached.2 hatt'
  rw [hsplit.attached] at hatt hatt'
  cases List.mem_singleton.1 hatt
  cases List.mem_singleton.1 hatt'
  exact ⟨rfl, rfl⟩

/-- A queued task is one of those its call attached, has not run, and is on one queue. -/
theorem Tracked.queued_fresh {i : Fin 64} {task : ThreadPoolTask τ α κ} (h : Tracked s task.owner)
    (hq : task ∈ (s.pool.workers i).queue) :
    (∃ v nodes, (task.owner, v, nodes) ∈ s.pool.hist.attached ∧ task ∈ nodes) ∧ task ∉ s.pool.hist.returned ∧
      (∀ j, task ∉ (s.pool.workers j).pc.current) ∧ ∀ j, task ∈ (s.pool.workers j).queue → j = i := by
  obtain ⟨-, nodes, pre, suf, hnd, hsplit, hsuf⟩ := h.queued hq
  have hmine : ∀ {l : List (ThreadPoolTask τ α κ)}, task ∈ l → task ∈ l.filter fun x => x.owner == task.owner := fun hl =>
    List.mem_filter.2 ⟨hl, by simp⟩
  have hpre : task ∉ pre := fun hpre => List.disjoint_of_nodup_append (hsplit.append ▸ hnd : (pre ++ suf).Nodup) hpre hsuf
  rw [← hsplit.executed] at hpre
  have hother : ∀ j, j ≠ i → (s.pool.lane task.owner).queued j = [] ∧ (s.pool.lane task.owner).running j = [] :=
    hsplit.elsewhere
  refine ⟨⟨i, nodes, mem_lane_attached.1 (by rw [hsplit.attached]; exact List.mem_singleton_self _), ?_⟩,
    fun hret => hpre (List.mem_append_left _ (hmine hret)), fun j hj => ?_, fun j hj => ?_⟩
  · rw [hsplit.append]
    exact List.mem_append_right _ hsuf
  · rcases eq_or_ne j i with rfl | hne
    · exact hpre (List.mem_append_right _ (hmine hj))
    · exact absurd (hmine hj) (by rw [show List.filter _ _ = [] from (hother j hne).2]; exact List.not_mem_nil)
  · by_contra hne
    exact absurd (hmine hj) (by rw [show List.filter _ _ = [] from (hother j hne).1]; exact List.not_mem_nil)

/-- A cancelled task of `t` has not run and will not. -/
def Lost (t : τ) (s : PoolSys τ α κ) : Prop := ∀ e ∈ s.pool.hist.cancelled, ∀ task ∈ e.2.2, task.owner = t →
  (∃ v nodes, (t, v, nodes) ∈ s.pool.hist.attached ∧ task ∈ nodes) ∧ task ∉ s.pool.hist.returned ∧
    (∀ i, task ∉ (s.pool.workers i).pc.current) ∧ ∀ i, task ∉ (s.pool.workers i).queue

theorem Lost.step (h : Lost t s) (ht : ∀ u, Tracked s u) (hs : s.step a = some s') : Lost t s' := by
  intro e he task hmem hu
  cases step_cases hs with
  | call u c o hidle => exact h e he task hmem hu
  | worker i o p hp =>
    have hsame : p.hist.cancelled = s.pool.hist.cancelled := by cases hp <;> rfl
    have he : e ∈ p.hist.cancelled := he
    rw [hsame] at he
    obtain ⟨hatt, hret, hrun, hq⟩ := h e he task hmem hu
    refine ⟨?_, ?_, fun j hj => ?_, fun j hj => hq j ((Pool.workerStep_queue hp).2 j task hj)⟩
    · rw [show ({ s with pool := p } : PoolSys τ α κ).pool.hist.attached = _ from Pool.workerStep_attached hp]
      exact hatt
    · cases hp with
      | func x hpc =>
        intro hmem
        rcases List.mem_append.1 hmem with hmem | hmem
        · exact hret hmem
        · obtain rfl := List.mem_singleton.1 hmem
          exact hrun i (by rw [hpc]; exact List.mem_singleton_self _)
      | _ => exact hret
    · rcases Pool.workerStep_current hp hj with hj | hj
      · exact hrun j hj
      · exact hq j hj
  | thread u o p pc hp =>
    -- what holds before the step, and after it of the queues
    suffices hnow : (∃ v nodes, (t, v, nodes) ∈ s.pool.hist.attached ∧ task ∈ nodes) ∧ task ∉ s.pool.hist.returned ∧
        (∀ i, task ∉ (s.pool.workers i).pc.current) ∧ ∀ i, task ∉ (p.workers i).queue by
      obtain ⟨⟨v, nodes, hatt, hmem⟩, hret, hrun, hq⟩ := hnow
      obtain ⟨l, hl, -⟩ := Pool.threadStep_attached hp
      refine ⟨⟨v, nodes, ?_, hmem⟩, ?_, fun i => ?_, hq⟩
      · rw [setThread_pool, hl]
        exact List.mem_append_left _ hatt
      · rw [setThread_pool, Pool.threadStep_returned hp]
        exact hret
      · rw [setThread_pool, (Pool.threadStep_worker hp i).1]
        exact hrun i
    have hold : e ∈ s.pool.hist.cancelled → (∃ v nodes, (t, v, nodes) ∈ s.pool.hist.attached ∧ task ∈ nodes) ∧
        task ∉ s.pool.hist.returned ∧ (∀ i, task ∉ (s.pool.workers i).pc.current) ∧ ∀ i, task ∉ (p.workers i).queue := by
      intro he
      obtain ⟨⟨v, nodes, hatt, hmem⟩, hret, hrun, hq⟩ := h e he task hmem hu
      refine ⟨⟨v, nodes, hatt, hmem⟩, hret, hrun, fun j hj => ?_⟩
      rcases Pool.threadStep_queue hp (ht u).made hj with hj | ⟨howner, hacc⟩
      · exact hq j hj
      · obtain rfl : t = u := hu.symm.trans howner
        rw [(ht t).accepted_of_attached hatt] at hacc
        cases hacc
    rcases Pool.threadStep_cancelled hp with hcan | ⟨i, r, hcan, hw⟩
    · exact hold (by rwa [setThread_pool, hcan] at he)
    rw [setThread_pool, hcan] at he
    rcases List.mem_append.1 he with he | he
    · exact hold he
    obtain rfl := List.mem_singleton.1 he
    subst hu
    obtain ⟨hqi, hri⟩ := List.mem_filter.1 hmem
    obtain ⟨⟨v, nodes, hatt, hmem'⟩, hret, hrun, hone⟩ := (ht task.owner).queued_fresh hqi
    refine ⟨⟨v, nodes, hatt, hmem'⟩, hret, hrun, fun j hj => ?_⟩
    rcases Pool.threadStep_queue hp (ht u).made hj with hj' | ⟨rfl, hacc⟩
    · obtain rfl := hone j hj'
      rw [hw] at hj
      have := (List.mem_filter.1 hj).2
      rw [hri] at this
      cases this
    · rw [(ht task.owner).accepted_of_attached hatt] at hacc
      cases hacc

/-! ### How far the batch has come -/

/-- The batch callback calls made from the context of `t`. -/
def calls (t : τ) (w : Watch τ α κ) : List (Option τ × Bool × κ) := w.batches.filter fun e => e.1 == some t

/-- Worker `i` is about to call `cb` from the context of `t`. -/
def Firing (t : τ) (s : PoolSys τ α κ) (w : Watch τ α κ) (i : Fin 64) (cb : Option κ) : Prop :=
  (∃ task, (s.pool.workers i).pc = .batch task cb) ∧ w.due i = some t

/-- How far the batch `b` of the call `t` has come. -/
inductive BatchPhase (t : τ) (b : Submit α κ) (s : PoolSys τ α κ) (w : Watch τ α κ) : Prop
  /-- nothing is queued yet -/
  | before (hacc : (s.threads t).accepted = false) (hl : ∀ i, s.pool.uncounted t i = 0) (hn : calls t w = [])
      (hf : ∀ i cb, ¬Firing t s w i cb)
  /-- tasks of the batch are to be counted down on worker `v` -/
  | counting (v : Fin 64) (nodes : List (ThreadPoolTask τ α κ)) (hatt : (t, v, nodes) ∈ s.pool.hist.attached)
      (hsp : ¬s.pool.Spoilt t) (hpos : 0 < s.pool.uncounted t v) (hle : s.pool.uncounted t v ≤ b.args.length)
      (hv : ∀ i, i ≠ v → s.pool.uncounted t i = 0)
      (hcount : ∀ c ∈ s.pool.ctxs b.requestId, c.owner = t → c.pendingCount = Int32.ofNat (s.pool.uncounted t v))
      (hall : (s.threads t).submit? ≠ none → s.pool.uncounted t v = b.args.length) (hn : calls t w = [])
      (hf : ∀ i cb, ¬Firing t s w i cb)
  /-- the last one was counted down by worker `v`, and the callback is next -/
  | firing (v : Fin 64) (nodes : List (ThreadPoolTask τ α κ)) (hatt : (t, v, nodes) ∈ s.pool.hist.attached)
      (hsp : ¬s.pool.Spoilt t) (hl : ∀ i, s.pool.uncounted t i = 0) (hn : calls t w = []) (hv : Firing t s w v b.batchCb)
      (hf : ∀ i cb, i ≠ v → ¬Firing t s w i cb)
  | called (v : Fin 64) (nodes : List (ThreadPoolTask τ α κ)) (hatt : (t, v, nodes) ∈ s.pool.hist.attached)
      (hsp : ¬s.pool.Spoilt t) (hl : ∀ i, s.pool.uncounted t i = 0)
      (hn : calls t w = (b.batchCb.map fun cb => (some t, true, cb)).toList) (hf : ∀ i cb, ¬Firing t s w i cb)
  | cancelled (hsp : s.pool.Spoilt t) (hl : ∀ i, s.pool.uncounted t i = 0) (hn : calls t w = [])
      (hf : ∀ i cb, ¬Firing t s w i cb)

/-- A step that neither queues, cancels nor counts down tasks of `t` and calls no callback for it. -/
structure Same (t : τ) (b : Submit α κ) (s : PoolSys τ α κ) (w : Watch τ α κ) (s' : PoolSys τ α κ)
    (w' : Watch τ α κ) : Prop where
  left : ∀ i, s'.pool.uncounted t i = s.pool.uncounted t i
  spoilt : s'.pool.Spoilt t ↔ s.pool.Spoilt t
  attached : ∀ e ∈ s.pool.hist.attached, e ∈ s'.pool.hist.attached
  accepted : (s'.threads t).accepted = (s.threads t).accepted
  submit : (s.threads t).submit? = none → (s'.threads t).submit? = none
  ctx : ¬s.pool.Spoilt t → ∀ c ∈ s'.pool.ctxs b.requestId, c.owner = t → c ∈ s.pool.ctxs b.requestId ∨
    (s.threads t).submit? ≠ none ∧ c.pendingCount = Int32.ofNat b.args.length
  calls : calls t w' = calls t w
  firing : ∀ i cb, Firing t s' w' i cb ↔ Firing t s w i cb

theorem BatchPhase.keep {w' : Watch τ α κ} (h : BatchPhase t b s w) (hs : Same t b s w s' w') : BatchPhase t b s' w' := by
  have hl := hs.left
  have hf : (∀ i cb, ¬Firing t s w i cb) → ∀ i cb, ¬Firing t s' w' i cb := fun hf i cb h => hf i cb ((hs.firing i cb).1 h)
  cases h with
  | before hacc hl₀ hn hf₀ => exact .before (hs.accepted.trans hacc) (fun i => (hl i).trans (hl₀ i)) (hs.calls.trans hn) (hf hf₀)
  | counting v nodes hatt hsp hpos hle hv hcount hall hn hf₀ =>
    refine .counting v nodes (hs.attached _ hatt) (fun h => hsp (hs.spoilt.1 h)) (by rwa [hl]) (by rwa [hl])
      (fun i hi => (hl i).trans (hv i hi)) (fun c hc hu => ?_) (fun hne => ?_) (hs.calls.trans hn) (hf hf₀)
    · rw [hl]
      rcases hs.ctx hsp c hc hu with hc | ⟨hne, hcount'⟩
      · exact hcount c hc hu
      · rw [hcount', hall hne]
    · rw [hl]
      exact hall fun hnone => hne (hs.submit hnone)
  | firing v nodes hatt hsp hl₀ hn hv hf₀ =>
    exact .firing v nodes (hs.attached _ hatt) (fun h => hsp (hs.spoilt.1 h)) (fun i => (hl i).trans (hl₀ i)) (hs.calls.trans hn)
      ((hs.firing v _).2 hv) fun i cb hi h => hf₀ i cb hi ((hs.firing i cb).1 h)
  | called v nodes hatt hsp hl₀ hn hf₀ =>
    exact .called v nodes (hs.attached _ hatt) (fun h => hsp (hs.spoilt.1 h)) (fun i => (hl i).trans (hl₀ i))
      (hs.calls.trans hn) (hf hf₀)
  | cancelled hsp hl₀ hn hf₀ =>
    exact .cancelled (hs.spoilt.2 hsp) (fun i => (hl i).trans (hl₀ i)) (hs.calls.trans hn) (hf hf₀)

theorem mem_ctxs_of_addPending {p : Pool τ α κ} {r k : UInt32} {x : τ} {d : Int32} {c : RequestContext τ κ}
    (hc : c ∈ (p.addPending k x d).ctxs r) (hu : c.owner = t) (hx : r = k → x ≠ t) : c ∈ p.ctxs r := by
  rw [Pool.addPending_ctxs] at hc
  split at hc
  · rename_i hr
    obtain ⟨c₀, hc₀, rfl⟩ := List.mem_map.1 hc
    rw [Pool.bumped_owner] at hu
    rwa [Pool.bumped, if_neg fun h => hx hr (h.symm.trans hu)]
  · exact hc

theorem mem_ctxs_of_afterCancel {p : Pool τ α κ} {r k : UInt32} {x : τ} {d : Int32} {c : RequestContext τ κ} {z : Prop}
    [Decidable z] (hc : c ∈ (if z then (p.addPending k x d).removeReqContext k else p.addPending k x d).ctxs r)
    (hu : c.owner = t) (hx : r = k → x ≠ t) : c ∈ p.ctxs r := by
  split at hc
  · rw [Pool.removeReqContext_ctxs] at hc
    split at hc
    · exact mem_ctxs_of_addPending (List.mem_of_mem_tail hc) hu hx
    · exact mem_ctxs_of_addPending hc hu hx
  · exact mem_ctxs_of_addPending hc hu hx

theorem same_call {u : τ} {c : Call α κ} {o : Oracle} (w : Watch τ α κ) (hm : MadeBy t b s) (hu : s.threads u = .idle) :
    Same t b s w (s.setThread u (enter s.pool o c)) w := by
  have htu : t ≠ u := fun htu => hm.called (htu ▸ hu)
  have hsame : (s.setThread u (enter s.pool o c)).threads t = s.threads t := by rw [setThread_threads, if_neg htu]
  exact ⟨fun _ => rfl, Iff.rfl, fun _ => id, by rw [hsame], fun h => by rwa [hsame], fun _ c hc _ => .inl hc, rfl,
    fun _ _ => Iff.rfl⟩

theorem firing_thread {u : τ} {o : Oracle} {p : Pool τ α κ} {pc₀ pc : Pc τ α κ}
    (hp : Pool.ThreadStep s.pool u o pc₀ p pc) {i : Fin 64} {cb : Option κ} :
    Firing t ({ s with pool := p }.setThread u pc) w i cb ↔ Firing t s w i cb := by
  rw [Firing, Firing, setThread_pool]
  change ((∃ task, (p.workers i).pc = _) ∧ _) ↔ _
  rw [(Pool.threadStep_worker hp i).1]

theorem MadeBy.queued_request {task : ThreadPoolTask τ α κ} {i : Fin 64} (hm : MadeBy t b s)
    (ht : Tracked s t) (hq : task ∈ (s.pool.workers i).queue) (hu : task.owner = t) : task.requestId = b.requestId := by
  subst hu
  obtain ⟨⟨v, nodes, hatt, hmem⟩, -⟩ := ht.queued_fresh hq
  exact ((hm.attached (v, nodes) (mem_lane_attached.2 hatt)).1.of_mem hmem).2

section
variable (h : Tied t b s)
include h

/-- A section of worker `i` that neither counts a task of `t` down nor calls its callback. -/
theorem Tied.same_worker {i : Fin 64} {o : Oracle} {p : Pool τ α κ} (hc : CountedDown t b.requestId s (.worker i o))
    (hp : Pool.WorkerStep s.pool i o p) (hdec : ∀ task x, (s.pool.workers i).pc = .dec task x → task.owner ≠ t)
    (hfire : ∀ cb, ¬Firing t s w i cb) : Same t b s w { s with pool := p } (observe s w (.worker i o)) := by
  have hfind : ∀ task, (s.pool.workers i).pc = .find task → task.owner = t →
      s.pool.findReqContext task.requestId ≠ none := fun task hpc hu hnone => by
    simp only [CountedDown, Counts, hpc] at hc
    obtain ⟨c, hc, -⟩ := hc hu
    rw [hnone] at hc
    cases hc
  have hcan : p.hist.cancelled = s.pool.hist.cancelled := by cases hp <;> rfl
  refine ⟨Pool.uncounted_workerStep hp hfind hdec, ?_, fun e he => ?_, rfl, id, fun _ c hc hu => .inl ?_, ?_, fun j cb => ?_⟩
  · rw [Pool.Spoilt, Pool.Spoilt, hcan]
  · rw [show ({ s with pool := p } : PoolSys τ α κ).pool.hist.attached = _ from Pool.workerStep_attached hp]
    exact he
  · cases hp with
    | dec task x c' hpc hd =>
      exact mem_ctxs_of_addPending hc hu fun _ hx => hdec task x hpc ((h.dec i task x hpc).2 hx)
    | decDangling task x hpc hd =>
      exact mem_ctxs_of_addPending hc hu fun _ hx => hdec task x hpc ((h.dec i task x hpc).2 hx)
    | remove task hpc =>
      replace hc : c ∈ (s.pool.removeReqContext task.requestId).ctxs b.requestId := hc
      rw [Pool.removeReqContext_ctxs] at hc
      split at hc
      · exact List.mem_of_mem_tail hc
      · exact hc
    | _ => exact hc
  · cases hpc : (s.pool.workers i).pc with
    | batch task cb =>
      have hne : w.due i ≠ some t := fun hdue => hfire cb ⟨⟨task, hpc⟩, hdue⟩
      have hnil : ((cb.map fun cb => (w.due i, true, cb)).toList.filter fun e => e.1 == some t) = [] := by
        cases cb with
        | none => rfl
        | some cb => simp [hne]
      simp only [observe, hpc, calls, List.filter_append, hnil, List.append_nil]
    | _ => simp only [observe, hpc, calls]
  · have hdue : ∀ j, j ≠ i → (observe s w (.worker i o)).due j = w.due j := fun j hj => by
      cases hpc : (s.pool.workers i).pc with
      | dec task x => simp only [observe, hpc, Function.update_of_ne hj]
      | _ => simp only [observe, hpc]
    rcases eq_or_ne j i with rfl | hj
    swap
    · rw [Firing, Firing, hdue j hj]
      change ((∃ task, (p.workers j).pc = _) ∧ _) ↔ _
      rw [Pool.workers_of_ne hp hj]
    refine iff_of_false ?_ (hfire cb)
    rintro ⟨⟨task, hj⟩, hdue'⟩
    have hj : (p.workers j).pc = .batch task cb := hj
    cases hp with
    | dec x ctx c hpc hd =>
      simp only [observe, hpc, Function.update_self, Option.some.injEq] at hdue'
      exact hdec x ctx hpc ((h.dec j x ctx hpc).2 hdue')
    | decDangling x ctx hpc hd =>
      rw [Pool.setPc_workers_self] at hj
      split at hj <;> cases hj
    | park st pc hpc hq hpark => rcases hpark with ⟨rfl, -⟩ | ⟨rfl, -⟩ <;> simp at hj
    | finish x st pc hpc hpark => rcases hpark with ⟨rfl, -⟩ | ⟨rfl, -⟩ <;> simp at hj
    | _ => simp at hj

/-- A section of a call that neither attaches nor cancels tasks of `t`. -/
theorem Tied.same_thread {u : τ} {o : Oracle} {p : Pool τ α κ} {pc : Pc τ α κ} (hm : MadeBy t b s)
    (ht : ∀ u, Tracked s u) (hp : Pool.ThreadStep s.pool u o (s.threads u) p pc)
    (hleft : ∀ j, p.uncounted t j = s.pool.uncounted t j) (hsp : p.Spoilt t ↔ s.pool.Spoilt t)
    (hacc : u = t → pc.accepted = (s.threads u).accepted) :
    Same t b s w ({ s with pool := p }.setThread u pc) w := by
  have hstep : s.threads t ≠ .idle → (s.threads t).submit? = none → u = t → pc.submit? = none := fun _ hnone hut => by
    subst hut
    refine Option.eq_none_iff_forall_ne_some.2 fun b' hb' => ?_
    rw [(Pool.local_threadStep hp (ht u).made).2.1 b' hb'] at hnone
    cases hnone
  refine ⟨hleft, hsp, fun e he => ?_, ?_, fun hnone => ?_, fun hspoilt c hc hu => ?_, rfl, fun j cb => ?_⟩
  · obtain ⟨l, hl, -⟩ := Pool.threadStep_attached hp
    rw [setThread_pool, hl]
    exact List.mem_append_left _ he
  · rw [setThread_threads]
    split
    · rename_i htu
      rw [htu]
      exact hacc htu.symm
    · rfl
  · rw [setThread_threads]
    split
    · rename_i htu
      exact hstep hm.called hnone htu.symm
    · exact hnone
  · replace hc : c ∈ p.ctxs b.requestId := hc
    -- where the count of a context of `t` is corrected, `t` has returned and has lost its tasks
    have hback : Pool.NoNew s.pool p → (s.threads t).submit? = none ∧ Sole t b.requestId s := fun hno => by
      obtain ⟨c₀, hc₀, hsame⟩ := hno.ctxs hc
      have hu₀ := hsame.1.symm.trans hu
      refine ⟨(h.ctx _ c₀ (List.mem_filter.1 hc₀).1 hu₀).2.2, h.alone.resolve_right fun hover => hover.ctx c₀ hc₀ hu₀⟩
    have hno := hp.noNew
    generalize hpc : s.threads u = pc₀ at hp
    cases hp with
    | bump b' nodes x =>
      refine .inl (mem_ctxs_of_addPending hc hu fun hr _ => ?_)
      obtain ⟨hnone, hsole⟩ := hback (Pool.NoNew.addPending s.pool _ _ _)
      obtain rfl : u = t := hsole.submit u b' (by rw [hpc]; rfl) hr.symm
      rw [hpc] at hnone
      cases hnone
    | insert b' i nodes ho =>
      rw [Pool.insertReqContext_ctxs] at hc
      split at hc
      · rcases List.mem_cons.1 hc with rfl | hc
        · obtain rfl : u = t := hu
          have hmade := (ht u).made
          rw [hpc] at hmade
          obtain rfl : b' = b := hm.submit b' (by rw [hpc]; rfl)
          refine .inr ⟨by simp [hpc, Pc.submit?], ?_⟩
          rw [Pool.newContext, Submit.count, UInt32.toInt32_ofNat']
        · exact .inl hc
      · exact .inl hc
    | cancelUpdate k x n c' hd =>
      refine .inl (mem_ctxs_of_afterCancel hc hu fun hr hx => ?_)
      obtain ⟨-, hsole⟩ := hback (hno.resolve_right fun hins => by
        obtain ⟨_, _, _, hins, -⟩ := hins
        cases hpc.symm.trans hins)
      subst hr hx
      exact hspoilt (hsole.cancel u n hpc)
    | cancelUpdateDangling k x n hd =>
      refine .inl (mem_ctxs_of_afterCancel hc hu fun hr hx => ?_)
      obtain ⟨-, hsole⟩ := hback (hno.resolve_right fun hins => by
        obtain ⟨_, _, _, hins, -⟩ := hins
        cases hpc.symm.trans hins)
      subst hr hx
      exact hspoilt (hsole.cancel u n hpc)
    | _ => exact .inl hc
  · exact firing_thread hp

end

/-! ### The steps that count -/

section
variable (h : BatchPhase t b s w)
include h

theorem BatchPhase.attach {b' : Submit α κ} {i : Fin 64} {nodes : List (ThreadPoolTask τ α κ)} {o : Oracle} {p : Pool τ α κ}
    (hm : MadeBy t b s) (ht : ∀ u, Tracked s u) (hctx : Tied t b s) (hlost : Lost t s)
    (hp : Pool.ThreadStep s.pool t o (s.threads t) p (.findCtx b' i nodes)) (hpc : s.threads t = .attach b' i nodes)
    (hatt : (t, i, nodes) ∈ p.hist.attached) (hsp : p.Spoilt t ↔ s.pool.Spoilt t)
    (hleft : ∀ j, p.uncounted t j = s.pool.uncounted t j + if j = i then nodes.length else 0) :
    BatchPhase t b ({ s with pool := p }.setThread t (.findCtx b' i nodes)) w := by
  have hacc : (s.threads t).accepted = false := by rw [hpc]; rfl
  have hno : ∀ v l, (t, v, l) ∉ s.pool.hist.attached := fun v l hmem => by
    rw [(ht t).accepted_of_attached hmem] at hacc
    cases hacc
  have hunspoilt : ¬s.pool.Spoilt t := by
    rintro ⟨e, he, task, hmem, hu⟩
    obtain ⟨⟨v, l, hatt, -⟩, -⟩ := hlost e he task hmem hu
    exact hno v l hatt
  cases h with
  | counting v l hatt' => exact absurd hatt' (hno v l)
  | firing v l hatt' => exact absurd hatt' (hno v l)
  | called v l hatt' => exact absurd hatt' (hno v l)
  | cancelled hsp' => exact absurd hsp' hunspoilt
  | before hacc' hl hn hf =>
    obtain rfl : b' = b := hm.submit b' (by rw [hpc]; rfl)
    have hmade := (ht t).made
    rw [hpc] at hmade
    have hi : p.uncounted t i = b'.args.length := by rw [hleft, hl, if_pos rfl, hmade.2, Nat.zero_add]
    refine .counting i nodes hatt (fun hspoilt => hunspoilt (hsp.1 hspoilt)) ?_ (le_of_eq hi) (fun j hj => ?_)
      (fun c hc hu => ?_) (fun _ => hi) hn fun j cb hfire => hf j cb ((firing_thread hp).1 hfire)
    · exact lt_of_lt_of_eq (List.length_pos_iff.2 b'.args_ne) hi.symm
    · exact (hleft j).trans (by rw [hl, if_neg hj])
    · have hno := hp.noNew.resolve_right (by rintro ⟨_, _, _, hins, _⟩; exact nomatch hpc.symm.trans hins)
      obtain ⟨c₀, hc₀, hsame⟩ := hno.ctxs hc
      have hnone := (hctx.ctx _ c₀ (List.mem_filter.1 hc₀).1 (hsame.1.symm.trans hu)).2.2
      rw [hpc] at hnone
      cases hnone

theorem BatchPhase.cancel {u : τ} {i : Fin 64} {r : UInt32} {o : Oracle} {p : Pool τ α κ} {pc : Pc τ α κ}
    (hm : MadeBy t b s) (ht : ∀ u, Tracked s u) (hp : Pool.ThreadStep s.pool u o (s.threads u) p pc)
    (hmine : ∃ task ∈ s.pool.queued i r, task.owner = t) (hsp : p.Spoilt t)
    (hleft : ∀ j, p.uncounted t j = if j = i then ((s.pool.workers i).queue.filter fun task =>
      task.owner == t && !(task.requestId == r)).length else s.pool.uncounted t j) :
    BatchPhase t b ({ s with pool := p }.setThread u pc) w := by
  obtain ⟨task, htask, hu⟩ := hmine
  obtain ⟨hq, hr⟩ := List.mem_filter.1 htask
  have hnone : ((s.pool.workers i).queue.filter fun task => task.owner == t && !(task.requestId == r)) = [] := by
    refine List.filter_eq_nil_iff.2 fun y hy => ?_
    by_cases hyu : y.owner = t
    · have hyr : y.requestId = r := by
        rw [hm.queued_request (ht t) hy hyu, ← hm.queued_request (ht t) hq hu]
        simpa using hr
      simp [hyr]
    · simp [hyu]
  have hpos : 0 < s.pool.uncounted t i :=
    Nat.add_pos_left (List.length_pos_of_mem (List.mem_filter.2 ⟨hq, by simpa using hu⟩)) _
  have hf' : (∀ j cb, ¬Firing t s w j cb) → ∀ j cb, ¬Firing t ({ s with pool := p }.setThread u pc) w j cb :=
    fun hf j cb hfire => hf j cb ((firing_thread hp).1 hfire)
  cases h with
  | before hacc hl => exact absurd (hl i) (by omega)
  | firing v l hatt hsp' hl => exact absurd (hl i) (by omega)
  | called v l hatt hsp' hl => exact absurd (hl i) (by omega)
  | cancelled hsp' hl => exact absurd (hl i) (by omega)
  | counting v l hatt hsp' hpos' hle hv hcount hall hn hf =>
    obtain rfl : i = v := by
      by_contra hne
      have := hv i hne
      omega
    refine .cancelled hsp (fun j => (hleft j).trans ?_) hn (hf' hf)
    rw [hnone]
    split
    · rfl
    · rename_i hj
      exact hv j hj

theorem BatchPhase.count {i : Fin 64} {task : ThreadPoolTask τ α κ} {x : τ} {o : Oracle} {p : Pool τ α κ} (htied : Tied t b s)
    (hc : CountedDown t b.requestId s (.worker i o)) (hp : Pool.WorkerStep s.pool i o p)
    (hpc : (s.pool.workers i).pc = .dec task x) (hu : task.owner = t) :
    BatchPhase t b { s with pool := p } (observe s w (.worker i o)) := by
  obtain rfl : x = t := (htied.dec i task x hpc).1 hu
  have hpos : 0 < s.pool.uncounted x i := by
    refine Nat.add_pos_right _ ?_
    rw [hpc, WorkerPc.uncounted, if_pos hu]
    exact Nat.one_pos
  have hobs : observe s w (.worker i o) = { w with due := Function.update w.due i (some x) } := by
    simp only [observe, hpc]
  rw [hobs]
  cases h with
  | before hacc hl => exact absurd (hl i) (by omega)
  | firing v l hatt hsp' hl => exact absurd (hl i) (by omega)
  | called v l hatt hsp' hl => exact absurd (hl i) (by omega)
  | cancelled hsp' hl => exact absurd (hl i) (by omega)
  | counting v l hatt hsp hpos' hle hv hcount hall hn hf =>
  obtain rfl : i = v := by
    by_contra hne
    have := hv i hne
    omega
  obtain ⟨c, hd, heq⟩ : ∃ c, (s.pool.addPending task.requestId x (-1)).deref task.requestId x = some c ∧
      p = (s.pool.addPending task.requestId x (-1)).setPc i
        (if c.pendingCount = 0 then .batch task c.batchCb else .finish task) := by
    cases hp with
    | dec y ctx c hpc' hd =>
      cases hpc.symm.trans hpc'
      exact ⟨c, hd, rfl⟩
    | decDangling y ctx hpc' hd =>
      -- the context is in the table
      cases hpc.symm.trans hpc'
      simp only [CountedDown, Counts, hpc] at hc
      refine absurd ?_ (hc hu)
      rw [Pool.deref_eq, Pool.addPending_ctxs, if_pos rfl, List.find?_map, Option.map_eq_none_iff] at hd
      rw [Pool.deref_eq]
      simpa only [Function.comp_def, Pool.bumped_owner] using hd
    | _ => simp_all
  have hctxs : p.ctxs b.requestId = (s.pool.addPending task.requestId x (-1)).ctxs b.requestId := by rw [heq]; rfl
  have hcan : p.hist.cancelled = s.pool.hist.cancelled := by rw [heq]; rfl
  have hatt' : (x, i, l) ∈ p.hist.attached := by rw [heq]; exact hatt
  obtain ⟨hone, hrest⟩ : p.uncounted x i + 1 = s.pool.uncounted x i ∧ ∀ j, j ≠ i → p.uncounted x j = s.pool.uncounted x j := by
    refine Pool.uncounted_count hpc hu (by rw [heq]; rfl) ?_
    split <;> rfl
  rw [Pool.deref_eq, Pool.addPending_ctxs, if_pos rfl] at hd
  obtain ⟨c₀, hc₀, rfl⟩ := List.mem_map.1 (List.mem_of_find?_eq_some hd)
  have hu₀ : c₀.owner = x := by simpa using List.find?_some hd
  obtain ⟨hid, hcb, hsub⟩ := htied.ctx _ c₀ (List.mem_filter.1 hc₀).1 hu₀
  have hreq : b.requestId = task.requestId := hid.symm.trans (s.pool.requestId_of_mem_ctxs hc₀)
  have hdown : ∀ c₁ ∈ s.pool.ctxs b.requestId, c₁.owner = x →
      (Pool.bumped x (-1) c₁).pendingCount = Int32.ofNat (p.uncounted x i) := fun c₁ hc₁ hu₁ => by
    simp only [Pool.bumped, if_pos hu₁]
    rw [hcount c₁ hc₁ hu₁, ← hone, Int32.count_dec]
  have hcount' : ∀ c ∈ p.ctxs b.requestId, c.owner = x → c.pendingCount = Int32.ofNat (p.uncounted x i) := by
    intro c hc hu
    rw [hctxs, Pool.addPending_ctxs, if_pos hreq] at hc
    obtain ⟨c₁, hc₁, rfl⟩ := List.mem_map.1 hc
    exact hdown c₁ hc₁ (by rwa [Pool.bumped_owner] at hu)
  have hcb' : (Pool.bumped x (-1) c₀).batchCb = b.batchCb := by
    simp only [Pool.bumped, if_pos hu₀]
    exact hcb
  have hzero : (Pool.bumped x (-1) c₀).pendingCount = 0 ↔ p.uncounted x i = 0 := by
    rw [hdown c₀ (by rwa [hreq]) hu₀, Int32.count_eq_zero]
    have := b.count_lt
    omega
  have hother : ∀ j cb, j ≠ i → ¬Firing x { s with pool := p } { w with due := Function.update w.due i (some x) } j cb := by
    rintro j cb hj ⟨⟨y, hy⟩, hdue⟩
    have hy : (p.workers j).pc = .batch y cb := hy
    rw [Pool.workers_of_ne hp hj] at hy
    exact hf j cb ⟨⟨y, hy⟩, (Function.update_of_ne hj (some x) w.due).symm.trans hdue⟩
  have hspoilt : ¬p.Spoilt x := by rwa [Pool.Spoilt, hcan]
  have hpc' : (p.workers i).pc = if p.uncounted x i = 0 then .batch task b.batchCb else .finish task := by
    rw [heq, Pool.setPc_workers_self, ← heq, hcb']
    simp only [hzero]
  by_cases hlast : p.uncounted x i = 0
  · rw [if_pos hlast] at hpc'
    refine .firing i l hatt' hspoilt (fun j => ?_) hn ⟨⟨task, hpc'⟩, Function.update_self ..⟩ hother
    rcases eq_or_ne j i with rfl | hj
    · exact hlast
    · exact (hrest j hj).trans (hv j hj)
  · rw [if_neg hlast] at hpc'
    refine .counting i l hatt' hspoilt (Nat.pos_of_ne_zero hlast) (le_trans (Nat.le_of_succ_le (le_of_eq hone)) hle)
      (fun j hj => (hrest j hj).trans (hv j hj)) hcount' (fun hne => absurd hsub hne) hn fun j cb hfire => ?_
    rcases eq_or_ne j i with rfl | hj
    · obtain ⟨⟨y, hy⟩, -⟩ := hfire
      cases hpc'.symm.trans hy
    · exact hother j cb hj hfire

theorem BatchPhase.call {i : Fin 64} {cb : Option κ} {o : Oracle} {p : Pool τ α κ} (hp : Pool.WorkerStep s.pool i o p)
    (hfire : Firing t s w i cb) : BatchPhase t b { s with pool := p } (observe s w (.worker i o)) := by
  obtain ⟨⟨task, hpc⟩, hdue⟩ := hfire
  cases h with
  | before hacc hl hn hf => exact absurd ⟨⟨task, hpc⟩, hdue⟩ (hf i cb)
  | counting v l hatt hsp hpos hle hv hcount hall hn hf => exact absurd ⟨⟨task, hpc⟩, hdue⟩ (hf i cb)
  | called v l hatt hsp hl hn hf => exact absurd ⟨⟨task, hpc⟩, hdue⟩ (hf i cb)
  | cancelled hsp hl hn hf => exact absurd ⟨⟨task, hpc⟩, hdue⟩ (hf i cb)
  | firing v l hatt hsp hl hn hv hf =>
  obtain rfl : i = v := by
    by_contra hne
    exact hf i cb hne ⟨⟨task, hpc⟩, hdue⟩
  obtain ⟨⟨y, hy⟩, -⟩ := hv
  cases hpc.symm.trans hy
  have hleft := Pool.uncounted_workerStep (t := t) hp (fun y hy => nomatch hpc.symm.trans hy) fun y x hy => nomatch hpc.symm.trans hy
  have hcan : p.hist.cancelled = s.pool.hist.cancelled := by cases hp <;> rfl
  have hpc' : (p.workers i).pc = .remove task := by
    cases hp <;> simp_all
  refine .called i l ?_ (by rwa [Pool.Spoilt, hcan]) (fun j => (hleft j).trans (hl j)) ?_ fun j cb hfire => ?_
  · rw [show ({ s with pool := p } : PoolSys τ α κ).pool.hist.attached = _ from Pool.workerStep_attached hp]
    exact hatt
  · simp only [observe, hpc, calls, List.filter_append]
    rw [show w.batches.filter _ = [] from hn, List.nil_append]
    cases b.batchCb with
    | none => rfl
    | some cb => simp [hdue]
  · obtain ⟨⟨z, hz⟩, hdue'⟩ := hfire
    replace hz : (p.workers j).pc = .batch z cb := hz
    rcases eq_or_ne j i with rfl | hj
    · cases hpc'.symm.trans hz
    · rw [Pool.workers_of_ne hp hj] at hz
      simp only [observe, hpc] at hdue'
      exact hf j cb hj ⟨⟨z, hz⟩, hdue'⟩

theorem BatchPhase.step (hm : MadeBy t b s) (ht : ∀ u, Tracked s u) (htied : Tied t b s) (hlost : Lost t s)
    (hc : CountedDown t b.requestId s a) (hs : s.step a = some s') : BatchPhase t b s' (observe s w a) := by
  cases step_cases hs with
  | call u c o hu => exact h.keep (same_call w hm hu)
  | thread u o p pc hp =>
    rcases Pool.uncounted_threadStep (t := t) hp (ht u).made with ⟨hleft, hsp, hacc⟩ | ⟨rfl, b', i, nodes, hpc, rfl, hatt, hsp, hleft⟩ |
        ⟨r, x, i, hpc, hmine, hsp, hleft⟩
    · exact h.keep (htied.same_thread hm ht hp hleft hsp hacc)
    · exact h.attach hm ht htied hlost hp hpc hatt hsp hleft
    · exact h.cancel hm ht hp hmine hsp hleft
  | worker i o p hp =>
    by_cases hdec : ∃ task x, (s.pool.workers i).pc = .dec task x ∧ task.owner = t
    · obtain ⟨task, x, hpc, hu⟩ := hdec
      exact h.count htied hc hp hpc hu
    by_cases hfire : ∃ cb, Firing t s w i cb
    · obtain ⟨cb, hfire⟩ := hfire
      exact h.call hp hfire
    · refine h.keep (htied.same_worker hc hp (fun task x hpc hu => hdec ⟨task, x, hpc, hu⟩) fun cb hcb => hfire ⟨cb, hcb⟩)

end
/-- The batch callback of the batch `b`, made as call `t`: it is called at most once, when all tasks of the batch have been
executed and their callbacks have returned; it has been called when that is so and their worker waits again; it is not
called when a task of the batch is cancelled. -/
structure FiresOnce (t : τ) (b : Submit α κ) (cb : κ) (s : PoolSys τ α κ) (w : Watch τ α κ) : Prop where
  once : calls t w = [] ∨ calls t w = [(some t, true, cb)]
  atEnd : calls t w ≠ [] → ∃ v nodes, (t, v, nodes) ∈ s.pool.hist.attached ∧
    nodes.map (fun task => task.taskArg.userArg) = b.args ∧ ∀ task ∈ nodes, task ∈ w.finished
  whenDone : ∀ v nodes, (t, v, nodes) ∈ s.pool.hist.attached → (∀ task ∈ nodes, task ∈ w.finished) →
    (s.pool.workers v).pc = .wait → calls t w ≠ []
  cancelled : s.pool.Spoilt t → calls t w = []

/-- What is known of the batch `b` throughout a run. -/
structure Followed (t : τ) (b : Submit α κ) (s : PoolSys τ α κ) (w : Watch τ α κ) : Prop where
  tracked : ∀ u, Tracked s u
  made : MadeBy t b s
  finishing : s.pool.Finishing t w.finished
  tied : Tied t b s
  lost : Lost t s
  phase : BatchPhase t b s w

theorem Followed.step (h : Followed t b s w) (hbatch : b.batch = true) (hx : Exclusive b.requestId s a)
    (hc : CountedDown t b.requestId s a) (hs : s.step a = some s') : Followed t b s' (observe s w a) where
  tracked := tracked_step h.tracked hs
  made := h.made.step h.tracked hs
  finishing := finishing_step h.finishing h.tracked hs
  tied := h.tied.step hbatch h.made h.tracked hs hx hc
  lost := h.lost.step h.tracked hs
  phase := h.phase.step h.made h.tracked h.tied h.lost hc hs

/-- When nothing of the batch is left and nothing was cancelled, all its tasks have been finished. -/
theorem Followed.finished (h : Followed t b s w) {v : Fin 64} {nodes : List (ThreadPoolTask τ α κ)}
    (hatt : (t, v, nodes) ∈ s.pool.hist.attached) (hsp : ¬s.pool.Spoilt t) (hl : ∀ i, s.pool.uncounted t i = 0) :
    ∀ task ∈ nodes, task ∈ w.finished := by
  intro task hmem
  obtain ⟨b', v', nodes', pre, suf, hm, -, hsplit⟩ := (h.tracked t).split ((h.tracked t).accepted_of_attached hatt)
  have hatt := mem_lane_attached.2 hatt
  rw [hsplit.attached] at hatt
  cases List.mem_singleton.1 hatt
  have hq : (s.pool.lane t).queued v = [] := List.eq_nil_of_length_eq_zero (Nat.eq_zero_of_add_eq_zero_right (hl v))
  have hun := fun i => Nat.eq_zero_of_add_eq_zero_left (hl i)
  have hrun : (s.pool.lane t).running v = [] := by
    refine List.filter_eq_nil_iff.2 fun x hx hu => ?_
    have hv := hun v
    cases hpc : (s.pool.workers v).pc with
    | func y =>
      rw [hpc] at hx hv
      obtain rfl := List.mem_singleton.1 hx
      rw [WorkerPc.uncounted, if_pos (by simpa using hu)] at hv
      cases hv
    | _ =>
      rw [hpc] at hx
      cases hx
  have hsuf : suf = [] := by
    rcases hsplit.rest with hq' | ⟨-, r, -, hc⟩
    · exact hq'.symm.trans hq
    · obtain ⟨e, he, heq⟩ := List.mem_map.1 hc
      rw [← (Prod.mk.inj (Prod.mk.inj heq).2).2]
      exact List.filter_eq_nil_iff.2 fun x hx hu => hsp ⟨e, he, x, hx, by simpa using hu⟩
  have hret : task ∈ (s.pool.lane t).returned := by
    have hex := hsplit.executed
    rw [hrun, List.append_nil] at hex
    rw [hex]
    rwa [hsplit.append, hsuf, List.append_nil] at hmem
  obtain ⟨hret, hu⟩ := List.mem_filter.1 hret
  have hu : task.owner = t := by simpa using hu
  refine (h.finishing.called task hret hu).resolve_right ?_
  rintro ⟨i, hpc⟩
  have hi := hun i
  rw [hpc, WorkerPc.uncounted, if_pos hu] at hi
  cases hi

theorem Followed.firesOnce {cb : κ} (h : Followed t b s w) (hcb : b.batchCb = some cb) : FiresOnce t b cb s w := by
  have ht := h.tracked t
  have howner : ∀ {v nodes}, (t, v, nodes) ∈ s.pool.hist.attached → ∀ task ∈ nodes, task.owner = t := fun hatt task hmem =>
    ((h.made.attached _ (mem_lane_attached.2 hatt)).1.of_mem hmem).1
  -- a task of the batch that has not returned was not finished
  have hfresh : ∀ {v nodes}, (t, v, nodes) ∈ s.pool.hist.attached → (∀ task ∈ nodes, task ∈ w.finished) → ∀ {v' nodes' task},
      (t, v', nodes') ∈ s.pool.hist.attached → task ∈ nodes' → task ∈ s.pool.hist.returned := by
    intro v nodes hatt hfin v' nodes' task hatt' hmem
    obtain ⟨-, rfl⟩ := ht.attached_unique hatt hatt'
    exact h.finishing.after task (hfin task hmem) (howner hatt task hmem)
  have hnotSpoilt : ∀ {v nodes}, (t, v, nodes) ∈ s.pool.hist.attached → (∀ task ∈ nodes, task ∈ w.finished) →
      ¬s.pool.Spoilt t := by
    rintro v nodes hatt hfin ⟨e, he, task, hmem, hu⟩
    obtain ⟨⟨v', nodes', hatt', hmem'⟩, hret, -⟩ := h.lost e he task hmem hu
    exact hret (hfresh hatt hfin hatt' hmem')
  cases h.phase with
  | before hacc hl hn hf =>
    refine ⟨.inl hn, fun hne => absurd hn hne, fun v nodes hatt => ?_, fun _ => hn⟩
    rw [ht.accepted_of_attached hatt] at hacc
    cases hacc
  | counting v l hatt hsp hpos hle hv hcount hall hn hf =>
    refine ⟨.inl hn, fun hne => absurd hn hne, fun v' nodes hatt' hfin hwait => ?_, fun _ => hn⟩
    obtain ⟨rfl, -⟩ := ht.attached_unique hatt hatt'
    -- the worker that waits has one of the tasks in its queue
    rw [Pool.uncounted, hwait] at hpos
    obtain ⟨task, hmem⟩ := List.exists_mem_of_length_pos (show 0 < List.length _ from hpos)
    obtain ⟨hq, hu⟩ := List.mem_filter.1 hmem
    obtain rfl : task.owner = t := by simpa using hu
    obtain ⟨⟨v', nodes', hatt'', hmem'⟩, hret, -⟩ := ht.queued_fresh hq
    exact absurd (hfresh hatt' hfin hatt'' hmem') hret
  | firing v l hatt hsp hl hn hv hf =>
    refine ⟨.inl hn, fun hne => absurd hn hne, fun v' nodes hatt' hfin hwait => ?_, fun _ => hn⟩
    obtain ⟨rfl, -⟩ := ht.attached_unique hatt hatt'
    obtain ⟨⟨task, hpc⟩, -⟩ := hv
    cases hpc.symm.trans hwait
  | called v l hatt hsp hl hn hf =>
    rw [hcb] at hn
    obtain ⟨hm, hlen⟩ := h.made.attached _ (mem_lane_attached.2 hatt)
    exact ⟨.inr hn, fun _ => ⟨v, l, hatt, hm.args_eq hlen, h.finished hatt hsp hl⟩, fun _ _ _ _ _ hnil => (nomatch hn.symm.trans hnil),
      fun hspoilt => absurd hspoilt hsp⟩
  | cancelled hsp hl hn hf =>
    exact ⟨.inl hn, fun hne => absurd hn hne, fun v nodes hatt hfin => absurd hsp (hnotSpoilt hatt hfin), fun _ => hn⟩

theorem followed_call {c : Call α κ} {o : Oracle} (htr : ∀ u, Tracked s u) (hfin : s.pool.Finishing t w.finished)
    (hown : Owned t s w) (hunseen : Unseen t s) (hlost : Lost t s) (hcall : s.step (.call t c o) = some s')
    (hb : c.submit? = some b) (hfree : ¬InUse b.requestId s) : Followed t b s' w := by
  have hw : Watching (fun _ => 0) t b s' w := watching_call htr hfin hown hcall hb
  cases step_cases hcall with
  | call u c o hidle =>
  have hself : (s.setThread t (enter s.pool o c)).threads t = enter s.pool o c := by rw [setThread_threads, if_pos rfl]
  have hacc₀ : (s.threads t).accepted ≠ true := by simp [hidle, Pc.accepted]
  have hacc : ((s.setThread t (enter s.pool o c)).threads t).accepted = false := by
    rw [hself]
    exact (enter_local s.pool o c t).2.1
  have hholding : ∀ i, ∀ task ∈ (s.pool.workers i).pc.holding, task.owner ≠ t := fun i task hi hu =>
    hacc₀ (hunseen.holding i task hi hu)
  have hleft : ∀ i, s.pool.uncounted t i = 0 := fun i => by
    rw [Pool.uncounted, show List.filter _ _ = [] from ((htr t).unused (by simpa using hacc₀)).queued i, List.length_nil,
      Nat.zero_add]
    exact WorkerPc.uncounted_eq_zero (hholding i)
  have hcalls : calls t w = [] := List.filter_eq_nil_iff.2 fun e he hu => hacc₀ (hown.batches e he (by simpa using hu))
  refine ⟨hw.tracked, hw.made, hw.finishing, ⟨fun k c' hc hu => ?_, fun i task x hpc => ?_, .inl ⟨?_, ?_, ?_, ?_⟩⟩, hlost,
    .before hacc hleft hcalls fun i cb hfire => hacc₀ (hown.due i hfire.2)⟩
  · exact absurd (hown.ctx k c' hc hu) hacc₀
  · have hpc : (s.pool.workers i).pc = .dec task x := hpc
    refine iff_of_false (hholding i task (by rw [hpc]; rfl)) ?_
    rintro rfl
    exact hacc₀ (hown.dec i task hpc)
  · exact fun i task hi hr => absurd (.inr ⟨i, .inl ⟨task, hi, hr⟩⟩) hfree
  · exact fun i task hi hr => absurd (.inr ⟨i, .inr ⟨task, hi, hr⟩⟩) hfree
  · intro u b' hb' hr
    by_contra hut
    rw [setThread_threads, if_neg hut] at hb'
    exact hfree (.inl ⟨u, b', hb', hr⟩)
  · intro u n hu
    rw [setThread_threads] at hu
    split at hu
    · have := enter_ctx s.pool o c
      rw [hu] at this
      cases this
    · exact absurd (hunseen.ptr u (by rw [hu]; rfl)) hacc₀

omit [DecidableEq τ] in
theorem validate_batchCb {batch : Batch α κ} (hb : batch.validate = some b) : b.batchCb = batch.batchCb := by
  unfold Batch.validate at hb
  split at hb
  · cases hb
  split at hb
  · cases hb
    rfl
  · cases hb

end PoolSys

namespace World
open PoolSys
variable {τ α κ : Type} [DecidableEq τ] {x x₀ x₁ : World τ α κ} {ms ms' : List (Move τ α κ)} {t : τ} {b : Submit α κ}
  {o : Oracle} {v : Tenant τ}

/-- The callback of a batch fires once, and at the end, in every run in which the tasks of the batch are counted down on
the context that the batch inserted and nothing is written to a freed context. -/
theorem batchCb_once {batch : Batch α κ} {cb : κ} (h₀ : exec World.step start ms = some x₀)
    (hn : Along World.step NoStray start ms) (hcall : x₀.step (.act (.call t (.submitBatch batch) o) v) = some x₁)
    (hb : batch.validate = some b) (hcb : batch.batchCb = some cb) (hfree : ¬InUse b.requestId x₀.sys)
    (h : exec World.step x₁ ms' = some x)
    (hc : Along World.step (fun x m => x.NoStray m ∧ x.Acts (Exclusive b.requestId) m ∧
      x.Acts (CountedDown t b.requestId) m) x₁ ms') :
    x.sys.pool.hist.batchCbs.map Prod.snd = x.watch.batches.map Prod.snd ∧ FiresOnce t b cb x.sys x.watch := by
  have hbatch := (Batch.validate_eq_some hb).1
  obtain ⟨hpool, hw, -, -⟩ := call_cases hcall
  obtain ⟨htr, hfin, hown⟩ := watched h₀ hn t
  obtain ⟨-, -, hunseen, hlost⟩ := exec_watch (C := fun _ _ => True)
    (I := fun s w => (∀ u, Tracked s u) ∧ Owned t s w ∧ Unseen t s ∧ Lost t s)
    (fun _ _ _ _ hx _ hs => ⟨tracked_step hx.1 hs, hx.2.1.step hx.1 hs, hx.2.2.1.step hx.2.1 hx.1 hs, hx.2.2.2.step hx.1 hs⟩)
    ⟨tracked_start, owned_start t, unseen_start t, fun _ he => absurd he List.not_mem_nil⟩
    (hn.mono fun _ _ hm => ⟨hm, trivial⟩) h₀
  have hfirst : Followed t b x₁.sys x₁.watch := hw ▸ followed_call htr hfin hown hunseen hlost hpool hb hfree
  have hfollow : Followed t b x.sys x.watch := exec_watch (I := Followed t b)
    (fun _ _ _ _ hx hm hs => hx.step hbatch hm.1 hm.2 hs) hfirst hc h
  refine ⟨(listed (exec_append.2 ⟨x₀, h₀, exec_cons.2 ⟨x₁, hcall, h⟩⟩) ?_).2,
    hfollow.firesOnce ((validate_batchCb hb).trans hcb)⟩
  refine hn.trans h₀ ⟨rfl, fun y hy => ?_⟩
  cases hcall.symm.trans hy
  exact hc.mono fun _ _ hm => hm.1

/-! ### A batch that is counted, and one that is not -/

/-- Two tasks under the id 7, with a batch callback. -/
def pair : Batch Unit Unit := ⟨[(7, ()), (7, ())], none, some (), twoTasks.count_lt⟩

/-- Call 0 submits them; worker 0 executes the first one when call 1 wakes it, and the other for call 2. -/
def pairRun : List (Move (Fin 3) Unit Unit) :=
  quietMoves (List.replicate 6 (.thread 0 {}) ++ .call 1 (.wakeUp 7) {} :: List.replicate 3 (.thread 1 {}) ++
    List.replicate 6 (.worker 0 {}) ++ .call 2 (.wakeUp 7) {} :: List.replicate 3 (.thread 2 {}) ++
    List.replicate 8 (.worker 0 {}))

def pairCalled : World (Fin 3) Unit Unit :=
  last World.step start [.act (.call 0 (.submitBatch pair) {}) .other] (by decide +kernel)

def pairExecuted : World (Fin 3) Unit Unit := last World.step pairCalled pairRun (by decide +kernel)

theorem pairExecuted_once : PoolSys.calls 0 pairExecuted.watch = [(some 0, true, ())] ∧
    pairExecuted.sys.pool.hist.batchCbs.map Prod.snd = pairExecuted.watch.batches.map Prod.snd ∧
    FiresOnce 0 ⟨true, 7, [(), ()], none, some (), by decide, by decide⟩ () pairExecuted.sys pairExecuted.watch := by
  have hcall : start.step (.act (.call 0 (.submitBatch pair) {}) .other) = some pairCalled := rfl
  have hvalid : pair.validate = some ⟨true, 7, [(), ()], none, some (), by decide, by decide⟩ := rfl
  have hrun : exec World.step pairCalled pairRun = some pairExecuted := exec_last _
  exact ⟨by decide +kernel, batchCb_once exec_nil trivial hcall hvalid rfl (by decide +kernel) hrun (by decide +kernel)⟩

/-- A task of request 7 is submitted, woken for and cancelled. -/
def staleRun : List (Move (Fin 4) Unit Unit) :=
  quietMoves (.call 0 (.submitTask 7 () none) {} :: List.replicate 5 (.thread 0 {}) ++
    .call 1 (.wakeUp 7) {} :: List.replicate 3 (.thread 1 {}) ++ .call 2 (.cancel 7) {} :: List.replicate 4 (.thread 2 {}))

/-- Worker 0 still has the wake-up. -/
def stale : World (Fin 4) Unit Unit := last World.step start staleRun (by decide +kernel)

theorem single_lt : [((7 : UInt32), ())].length < 2 ^ 32 := by decide

/-- A batch of one task under the id 7, with a batch callback. -/
def single : Batch Unit Unit := ⟨[(7, ())], none, some (), single_lt⟩

def singleCalled : World (Fin 4) Unit Unit :=
  last World.step stale [.act (.call 3 (.submitBatch single) {}) .other] (by decide +kernel)

/-- Worker 0 executes the task before call 3 has inserted its context. -/
def earlyRun : List (Move (Fin 4) Unit Unit) :=
  quietMoves (List.replicate 3 (.thread 3 {}) ++ List.replicate 5 (.worker 0 {}) ++ List.replicate 2 (.thread 3 {}))

def early : World (Fin 4) Unit Unit := last World.step singleCalled earlyRun (by decide +kernel)

/-- The batch is accepted under an id that is not in use, and executed, and its callback is not called. -/
theorem early_uncalled : exec World.step start staleRun = some stale ∧ ¬InUse 7 stale.sys ∧
    stale.step (.act (.call 3 (.submitBatch single) {}) .other) = some singleCalled ∧
    exec World.step singleCalled earlyRun = some early ∧
    Along World.step (fun x m => x.NoStray m ∧ x.Acts (Exclusive 7) m) singleCalled earlyRun ∧
    early.sys.threads 3 = .done (.ids [2]) ∧ (early.sys.pool.workers 0).pc = .wait ∧ early.sys.pool.hist.batchCbs = [] ∧
    ¬FiresOnce 3 ⟨true, 7, [()], none, some (), by decide, by decide⟩ () early.sys early.watch := by
  have hstale : exec World.step start staleRun = some stale := exec_last _
  have hrun : exec World.step singleCalled earlyRun = some early := exec_last _
  refine ⟨hstale, by decide +kernel, rfl, hrun, by decide +kernel, by decide +kernel, by decide +kernel, by decide +kernel,
    fun h => ?_⟩
  obtain ⟨v, nodes, hatt, hfin, hwait⟩ : ∃ v nodes, (3, v, nodes) ∈ early.sys.pool.hist.attached ∧
      (∀ task ∈ nodes, task ∈ early.watch.finished) ∧ (early.sys.pool.workers v).pc = .wait := by
    obtain ⟨e, he, hu, hfin, hwait⟩ : ∃ e ∈ early.sys.pool.hist.attached, e.1 = 3 ∧
        (∀ task ∈ e.2.2, task ∈ early.watch.finished) ∧ (early.sys.pool.workers e.2.1).pc = .wait := by decide +kernel
    exact ⟨e.2.1, e.2.2, by rw [← hu]; exact he, hfin, hwait⟩
  exact h.whenDone v nodes hatt hfin hwait (by decide +kernel)

end World
end OsTransport
