import OsTransport.World

/-!
# The callbacks of a submission

`InternalTask.success` is set when the task is made and never again, and `internal_task_wrapper` does not look at what
`user_func` returned, so the callbacks report the outcome of the tasks only where they all succeed. A batch callback
comes from a count, so it speaks for the tasks of its batch only where the count covers them (`callbacks_reported`).
-/

namespace OsTransport
open Lts

/-! ### Each task once -/

namespace Pool
variable {τ α κ : Type} [DecidableEq τ] {p p' : Pool τ α κ} {t : τ} {finished : List (ThreadPoolTask τ α κ)}

/-- The tasks of the call `t` have been finished once each, after their functions returned, or a worker is about to
call the callback of one. -/
structure Finishing (t : τ) (p : Pool τ α κ) (finished : List (ThreadPoolTask τ α κ)) : Prop where
  returned : ∀ i task, (p.workers i).pc = .complete task → task ∈ p.hist.returned
  pending : ∀ i task, (p.workers i).pc = .complete task → task.owner = t → task ∉ finished
  alone : ∀ i j task, (p.workers i).pc = .complete task → (p.workers j).pc = .complete task → task.owner = t → i = j
  once : (finished.filter fun task => task.owner == t).Nodup
  after : ∀ task ∈ finished, task.owner = t → task ∈ p.hist.returned
  called : ∀ task ∈ p.hist.returned, task.owner = t → task ∈ finished ∨ ∃ i, (p.workers i).pc = .complete task

namespace Finishing

theorem keep (h : p.Finishing t finished)
    (hpc : ∀ i task, (p'.workers i).pc = .complete task ↔ (p.workers i).pc = .complete task)
    (hr : p'.hist.returned = p.hist.returned) : p'.Finishing t finished := by
  refine ⟨fun i task hi => ?_, fun i task hi => ?_, fun i j task hi hj => ?_, h.once, fun task ht => ?_, fun task ht hu => ?_⟩
  · rw [hr]
    exact h.returned i task ((hpc i task).1 hi)
  · exact h.pending i task ((hpc i task).1 hi)
  · exact h.alone i j task ((hpc i task).1 hi) ((hpc j task).1 hj)
  · rw [hr]
    exact h.after task ht
  · rw [hr] at ht
    exact (h.called task ht hu).imp_right fun ⟨i, hi⟩ => ⟨i, (hpc i task).2 hi⟩

theorem func {i : Fin 64} {task : ThreadPoolTask τ α κ} (h : p.Finishing t finished)
    (hpc : (p.workers i).pc = .func task) (hnew : task ∉ p.hist.returned)
    (hpc' : ∀ j, (p'.workers j).pc = if j = i then .complete task else (p.workers j).pc)
    (hr : p'.hist.returned = p.hist.returned ++ [task]) : p'.Finishing t finished := by
  have hold : ∀ {j x}, j ≠ i → (p'.workers j).pc = .complete x → (p.workers j).pc = .complete x := fun hj hx => by
    rwa [hpc', if_neg hj] at hx
  have hself : ∀ {x}, (p'.workers i).pc = .complete x → x = task := fun hx => by
    rw [hpc', if_pos rfl] at hx
    cases hx
    rfl
  refine ⟨fun j x hx => ?_, fun j x hx hu hmem => ?_, fun j k x hj hk hu => ?_, h.once, fun x hx hu => ?_, fun x hx hu => ?_⟩
  · rw [hr]
    rcases eq_or_ne j i with rfl | hji
    · exact List.mem_append_right _ (List.mem_singleton.2 (hself hx))
    · exact List.mem_append_left _ (h.returned j x (hold hji hx))
  · rcases eq_or_ne j i with rfl | hji
    · obtain rfl := hself hx
      exact hnew (h.after x hmem hu)
    · exact h.pending j x (hold hji hx) hu hmem
  · rcases eq_or_ne j i with rfl | hji
    · rcases eq_or_ne k j with rfl | hkj
      · rfl
      · obtain rfl := hself hj
        exact absurd (h.returned k x (hold hkj hk)) hnew
    · rcases eq_or_ne k i with rfl | hki
      · obtain rfl := hself hk
        exact absurd (h.returned j x (hold hji hj)) hnew
      · exact h.alone j k x (hold hji hj) (hold hki hk) hu
  · rw [hr]
    exact List.mem_append_left _ (h.after x hx hu)
  · rw [hr] at hx
    rcases List.mem_append.1 hx with hx | hx
    · rcases h.called x hx hu with hf | ⟨j, hj⟩
      · exact .inl hf
      · refine .inr ⟨j, ?_⟩
        rw [hpc', if_neg, hj]
        rintro rfl
        rw [hpc] at hj
        cases hj
    · obtain rfl := List.mem_singleton.1 hx
      exact .inr ⟨i, by rw [hpc', if_pos rfl]⟩

theorem complete {i : Fin 64} {task : ThreadPoolTask τ α κ} (h : p.Finishing t finished)
    (hpc : (p.workers i).pc = .complete task)
    (hpc' : ∀ j, (p'.workers j).pc = if j = i then .find task else (p.workers j).pc)
    (hr : p'.hist.returned = p.hist.returned) : p'.Finishing t (finished ++ [task]) := by
  have hold : ∀ {j x}, (p'.workers j).pc = .complete x → j ≠ i ∧ (p.workers j).pc = .complete x := fun {j x} hx => by
    rw [hpc'] at hx
    split at hx
    · cases hx
    · rename_i hj
      exact ⟨hj, hx⟩
  refine ⟨fun j x hx => ?_, fun j x hx hu hmem => ?_, fun j k x hj hk => ?_, ?_, fun x hx hu => ?_, fun x hx hu => ?_⟩
  · rw [hr]
    exact h.returned j x (hold hx).2
  · obtain ⟨hj, hx⟩ := hold hx
    rcases List.mem_append.1 hmem with hmem | hmem
    · exact h.pending j x hx hu hmem
    · obtain rfl := List.mem_singleton.1 hmem
      exact hj (h.alone j i x hx hpc hu)
  · exact h.alone j k x (hold hj).2 (hold hk).2
  · rw [List.filter_append]
    refine List.Nodup.append h.once (List.Nodup.filter _ (List.nodup_singleton task)) fun x hx hx' => ?_
    obtain ⟨hx', hu⟩ := List.mem_filter.1 hx'
    obtain rfl := List.mem_singleton.1 hx'
    exact h.pending i x hpc (by simpa using hu) (List.mem_filter.1 hx).1
  · rw [hr]
    rcases List.mem_append.1 hx with hx | hx
    · exact h.after x hx hu
    · obtain rfl := List.mem_singleton.1 hx
      exact h.returned i x hpc
  · rw [hr] at hx
    rcases h.called x hx hu with hf | ⟨j, hj⟩
    · exact .inl (List.mem_append_left _ hf)
    · rcases eq_or_ne j i with rfl | hji
      · cases hpc.symm.trans hj
        exact .inl (List.mem_append_right _ (List.mem_singleton_self _))
      · exact .inr ⟨j, by rw [hpc', if_neg hji, hj]⟩

theorem other {i : Fin 64} {o : Oracle} (h : p.Finishing t finished) (hs : WorkerStep p i o p')
    (hpc : ∀ task, (p.workers i).pc ≠ .complete task) (hpc' : ∀ task, (p'.workers i).pc ≠ .complete task)
    (hr : p'.hist.returned = p.hist.returned) : p'.Finishing t finished := by
  refine h.keep (fun j task => ?_) hr
  rcases eq_or_ne j i with rfl | hj
  · exact iff_of_false (hpc' task) (hpc task)
  · rw [workers_of_ne hs hj]

theorem workerStep {i : Fin 64} {o : Oracle} (h : p.Finishing t finished) (hs : WorkerStep p i o p')
    (hnew : ∀ task, (p.workers i).pc = .func task → task ∉ p.hist.returned) :
    p'.Finishing t (match (p.workers i).pc with
      | .complete task => finished ++ [task]
      | _ => finished) := by
  have hset : ∀ {q : Pool τ α κ} {pc : WorkerPc τ α κ}, q.workers = p.workers → ∀ j,
      ((q.setPc i pc).workers j).pc = if j = i then pc else (p.workers j).pc := fun {q pc} hq j => by
    rw [setPc, setWorker_workers, hq]
    split <;> rfl
  have hs' := hs
  cases hs with
  | func task hpc =>
    rw [hpc]
    exact h.func hpc (hnew task hpc) (hset rfl) rfl
  | complete task cbs hpc =>
    rw [hpc]
    exact h.complete hpc (hset rfl) rfl
  | park st pc hpc hq hpark =>
    rw [hpc]
    refine h.other hs' (by simp [hpc]) ?_ rfl
    rcases hpark with ⟨rfl, -⟩ | ⟨rfl, -⟩ <;> simp
  | finish task st pc hpc hpark =>
    rw [hpc]
    refine h.other hs' (by simp [hpc]) ?_ rfl
    rcases hpark with ⟨rfl, -⟩ | ⟨rfl, -⟩ <;> simp
  | dec task ctx c hpc hd =>
    rw [hpc]
    refine h.other hs' (by simp [hpc]) (fun x => ?_) rfl
    rw [setPc_workers_self]
    split <;> simp
  | decDangling task ctx hpc hd =>
    rw [hpc]
    refine h.other hs' (by simp [hpc]) (fun x => ?_) rfl
    rw [setPc_workers_self]
    split <;> simp
  | take task rest hpc hr hpop =>
    rw [hpc]
    exact h.other hs' (by simp [hpc]) (by simp) rfl
  | findSome task ctx hpc hf =>
    rw [hpc]
    exact h.other hs' (by simp [hpc]) (by simp) rfl
  | findNone task hpc hf =>
    rw [hpc]
    exact h.other hs' (by simp [hpc]) (by simp) rfl
  | batch task cb cbs hpc =>
    rw [hpc]
    exact h.other hs' (by simp [hpc]) (by simp) rfl
  | remove task hpc =>
    rw [hpc]
    exact h.other hs' (by simp [hpc]) (by simp) rfl

theorem threadStep {u : τ} {o : Oracle} {pc pc' : Pc τ α κ} (h : p.Finishing t finished)
    (hs : ThreadStep p u o pc p' pc') : p'.Finishing t finished := by
  refine h.keep (fun j task => by rw [(threadStep_worker hs j).1]) ?_
  cases hs with
  | cancelUpdate => split <;> rfl
  | cancelUpdateDangling => split <;> rfl
  | _ => rfl

end Finishing
end Pool

namespace PoolSys
variable {τ α κ : Type} [DecidableEq τ] {s s' : PoolSys τ α κ} {w : Watch τ α κ} {a : Act τ α κ} {t : τ}

theorem Tracked.not_returned {i : Fin 64} {task : ThreadPoolTask τ α κ} (h : Tracked s task.owner)
    (hpc : (s.pool.workers i).pc = .func task) : task ∉ s.pool.hist.returned := by
  have hrun : (s.pool.lane task.owner).running i = [task] := by simp [Pool.lane, hpc]
  intro hmem
  cases hacc : (s.threads task.owner).accepted with
  | false =>
    have := (h.unused hacc).running i
    rw [hrun] at this
    cases this
  | true =>
    obtain ⟨b, v, nodes, pre, suf, hm, -, hsplit⟩ := h.split hacc
    obtain rfl : i = v := by
      by_contra hi
      have := (hsplit.elsewhere i hi).2
      rw [hrun] at this
      cases this
    have hret : task ∈ (s.pool.lane task.owner).returned := List.mem_filter.2 ⟨hmem, by simp⟩
    have hnodup : pre.Nodup := (hsplit.append ▸ hm.nodup : (pre ++ suf).Nodup).of_append_left
    rw [← hsplit.executed, hrun] at hnodup
    exact (List.disjoint_of_nodup_append hnodup) hret (List.mem_singleton_self _)

theorem finishing_step (h : s.pool.Finishing t w.finished) (ht : ∀ u, Tracked s u) (hs : s.step a = some s') :
    s'.pool.Finishing t (observe s w a).finished := by
  cases step_cases hs with
  | call u c o hu => exact h
  | thread u o p pc hp => exact h.threadStep hp
  | worker i o p hp =>
    have hstep := h.workerStep hp fun task hpc => (ht task.owner).not_returned hpc
    cases hpc : (s.pool.workers i).pc <;> simpa only [observe, hpc] using hstep

end PoolSys

/-! ### What a task carries to its callback -/

/-- The task carries its id and the callback of the submission `b`. -/
def Told {τ α κ : Type} (b : Submit α κ) (task : ThreadPoolTask τ α κ) : Prop :=
  task.taskArg.taskId = task.taskId ∧ task.taskArg.success = true ∧ task.taskArg.completeCb = b.completeCb

namespace Pc
variable {τ α κ : Type}

/-- The tasks a submission has made so far. -/
def nodes : Pc τ α κ → List (ThreadPoolTask τ α κ)
  | .select _ nodes .. | .create _ _ nodes | .attach _ _ nodes | .findCtx _ _ nodes | .bump _ nodes _
  | .insert _ _ nodes => nodes
  | _ => []

/-- The tasks whose ids the call `t` is going to report, or has reported, are those it attached. -/
def Kept (t : τ) (attached : List (τ × Fin 64 × List (ThreadPoolTask τ α κ))) : Pc τ α κ → Prop
  | .findCtx _ _ nodes | .bump _ nodes _ | .insert _ _ nodes => ∃ i, (t, i, nodes) ∈ attached
  | .done (.ids ids) => ∃ i nodes, (t, i, nodes) ∈ attached ∧ ids = nodes.map (·.taskId)
  | _ => True

theorem Kept.mono {t : τ} {l l' : List (τ × Fin 64 × List (ThreadPoolTask τ α κ))} {pc : Pc τ α κ} (h : pc.Kept t l)
    (hsub : ∀ e ∈ l, e ∈ l') : pc.Kept t l' := by
  cases pc with
  | findCtx | bump | insert =>
    obtain ⟨i, hi⟩ := h
    exact ⟨i, hsub _ hi⟩
  | done ret =>
    cases ret with
    | ids ids =>
      obtain ⟨i, nodes, hi, hids⟩ := h
      exact ⟨i, nodes, hsub _ hi, hids⟩
    | _ => trivial
  | _ => trivial

end Pc

namespace Pool
variable {τ α κ : Type} [DecidableEq τ] {p p' : Pool τ α κ} {t : τ} {b : Submit α κ}

/-- What a section of the submission `b` does to its tasks. -/
theorem told_threadStep {o : Oracle} {pc pc' : Pc τ α κ} (hs : ThreadStep p t o pc p' pc')
    (hb : ∀ b', pc.submit? = some b' → b' = b) (hn : ∀ task ∈ pc.nodes, Told b task)
    (ha : ∀ e ∈ p.hist.attached, e.1 = t → ∀ task ∈ e.2.2, Told b task) (hk : pc.Kept t p.hist.attached) :
    (∀ task ∈ pc'.nodes, Told b task) ∧ (∀ e ∈ p'.hist.attached, e.1 = t → ∀ task ∈ e.2.2, Told b task) ∧
      pc'.Kept t p'.hist.attached := by
  cases hs with
  | select b' nodes i best minLoad hm =>
    have hafter : ∀ j, (∀ task ∈ (afterSelect b' nodes j).nodes, Told b task) ∧
        (afterSelect b' nodes j).Kept t p.hist.attached := fun j => by
      unfold afterSelect
      split
      · exact ⟨by simp [Pc.nodes], trivial⟩
      · exact ⟨hn, trivial⟩
    rcases selectStep_cases p b' nodes i best minLoad with ⟨j, best', m', h⟩ | ⟨j, h⟩ | h <;> rw [h]
    · exact ⟨hn, ha, trivial⟩
    · exact ⟨(hafter j).1, ha, (hafter j).2⟩
    · exact ⟨by simp [Pc.nodes], ha, trivial⟩
  | create b' w nodes arg harg =>
    obtain rfl := hb b' rfl
    have hn' : ∀ task ∈ nodes ++ [p.createNode t b' nodes.length arg], Told b' task := by
      intro task htask
      rcases List.mem_append.1 htask with htask | htask
      · exact hn task htask
      · obtain rfl := List.mem_singleton.1 htask
        exact ⟨rfl, rfl, rfl⟩
    unfold afterCreate
    split
    · exact ⟨hn', ha, trivial⟩
    · cases w <;> exact ⟨hn', ha, trivial⟩
  | attach b' i nodes size hm hsize =>
    refine ⟨hn, fun e he => ?_, i, List.mem_append_right _ (List.mem_singleton_self _)⟩
    rcases List.mem_append.1 he with he | he
    · exact ha e he
    · obtain rfl := List.mem_singleton.1 he
      exact fun _ => hn
  | findSome b' i nodes ctx hf => exact ⟨hn, ha, hk⟩
  | findNone b' i nodes hf => exact ⟨hn, ha, hk⟩
  | bump b' nodes ctx =>
    obtain ⟨i, hi⟩ := hk
    exact ⟨by simp [Pc.nodes], ha, i, nodes, hi, rfl⟩
  | insert b' i nodes ho =>
    obtain ⟨j, hj⟩ := hk
    exact ⟨by simp [Pc.nodes], ha, j, nodes, hj, rfl⟩
  | insertFail b' i nodes ho =>
    obtain ⟨j, hj⟩ := hk
    exact ⟨by simp [Pc.nodes], ha, j, nodes, hj, rfl⟩
  | cancelQueue r ctx i hm =>
    refine ⟨?_, ha, ?_⟩ <;> split
    · simp [Pc.nodes]
    · simp [Pc.nodes]
    · trivial
    · trivial
  | cancelUpdate r ctx n c hd =>
    refine ⟨by simp [Pc.nodes], ?_, trivial⟩
    split <;> exact ha
  | cancelUpdateDangling r ctx n hd =>
    refine ⟨by simp [Pc.nodes], ?_, trivial⟩
    split <;> exact ha
  | _ => exact ⟨by simp [Pc.nodes], ha, trivial⟩

theorem threadStep_attached {u : τ} {o : Oracle} {pc pc' : Pc τ α κ} (hs : ThreadStep p u o pc p' pc') :
    ∃ l, p'.hist.attached = p.hist.attached ++ l ∧ ∀ e ∈ l, e.1 = u := by
  cases hs with
  | attach b i nodes size hm hsize => exact ⟨[(u, i, nodes)], rfl, by simp⟩
  | cancelUpdate r ctx n c hd => exact ⟨[], by split <;> simp, by simp⟩
  | cancelUpdateDangling r ctx n hd => exact ⟨[], by split <;> simp, by simp⟩
  | _ => exact ⟨[], by simp, by simp⟩

theorem workerStep_attached {i : Fin 64} {o : Oracle} (hs : WorkerStep p i o p') :
    p'.hist.attached = p.hist.attached := by
  cases hs <;> rfl

theorem threadStep_returned {u : τ} {o : Oracle} {pc pc' : Pc τ α κ} (hs : ThreadStep p u o pc p' pc') :
    p'.hist.returned = p.hist.returned := by
  cases hs with
  | cancelUpdate => split <;> rfl
  | cancelUpdateDangling => split <;> rfl
  | _ => rfl

/-- How many tasks of the call `t` are queued, running or cancelled. -/
def unreturned (p : Pool τ α κ) (t : τ) : Nat :=
  (∑ i, (((p.lane t).queued i).length + ((p.lane t).running i).length)) +
    ((p.lane t).cancelled.map fun e => e.2.2.length).sum

theorem deref_of_addPending {r : UInt32} {d : Int32} {c : RequestContext τ κ}
    (h : (p.addPending r t d).deref r t = some c) :
    ∃ c₀, p.deref r t = some c₀ ∧ c.pendingCount = c₀.pendingCount + d ∧ c.batchCb = c₀.batchCb := by
  have hcomp : ((fun c : RequestContext τ κ => c.owner == t) ∘ bumped t d) = fun c => c.owner == t :=
    funext fun c => by simp
  rw [deref_eq, addPending_ctxs, if_pos rfl, List.find?_map, hcomp] at h
  obtain ⟨c₀, hc₀, rfl⟩ := Option.map_eq_some_iff.1 h
  have hown : c₀.owner = t := by simpa using List.find?_some hc₀
  exact ⟨c₀, (p.deref_eq r t).trans hc₀, by rw [bumped, if_pos hown], by rw [bumped, if_pos hown]⟩

end Pool

namespace PoolSys
variable {τ α κ : Type} [DecidableEq τ] {s s' : PoolSys τ α κ} {w : Watch τ α κ} {a : Act τ α κ} {t : τ}
  {b : Submit α κ}

/-- Every task that the call `t` has made carries what the submission `b` gave it. -/
structure Given (t : τ) (b : Submit α κ) (s : PoolSys τ α κ) : Prop where
  nodes : ∀ task ∈ (s.threads t).nodes, Told b task
  attached : ∀ e ∈ s.pool.hist.attached, e.1 = t → ∀ task ∈ e.2.2, Told b task
  kept : (s.threads t).Kept t s.pool.hist.attached

theorem Given.step (h : Given t b s) (hb : MadeBy t b s) (hs : s.step a = some s') : Given t b s' := by
  cases step_cases hs with
  | call u c o hu =>
    have htu : t ≠ u := fun htu => hb.called (htu ▸ hu)
    have hsame : (s.setThread u (enter s.pool o c)).threads t = s.threads t := by rw [setThread_threads, if_neg htu]
    exact ⟨by rw [hsame]; exact h.nodes, h.attached, by rw [hsame]; exact h.kept⟩
  | worker i o p hp =>
    have hatt := Pool.workerStep_attached hp
    exact ⟨h.nodes, by simpa only [hatt] using h.attached, by simpa only [hatt] using h.kept⟩
  | thread u o p pc hp =>
    rcases eq_or_ne t u with rfl | htu
    · obtain ⟨h₁, h₂, h₃⟩ := Pool.told_threadStep hp hb.submit h.nodes h.attached h.kept
      have hself : (({ s with pool := p } : PoolSys τ α κ).setThread t pc).threads t = pc := by
        rw [setThread_threads, if_pos rfl]
      exact ⟨by rw [hself]; exact h₁, h₂, by rw [hself]; exact h₃⟩
    · obtain ⟨l, hl, hu⟩ := Pool.threadStep_attached hp
      have hsame : (({ s with pool := p } : PoolSys τ α κ).setThread u pc).threads t = s.threads t := by
        rw [setThread_threads, if_neg htu]
      refine ⟨by rw [hsame]; exact h.nodes, fun e he het => ?_, ?_⟩
      · rw [setThread_pool, hl] at he
        rcases List.mem_append.1 he with he | he
        · exact h.attached e he het
        · exact absurd (het.symm.trans (hu e he)) htu
      · rw [hsame, setThread_pool, hl]
        exact h.kept.mono fun e he => List.mem_append_left _ he

/-! ### The batch callback -/

/-- Where something of the contexts of the call `t` is seen, its tasks have been attached. -/
structure Owned (t : τ) (s : PoolSys τ α κ) (w : Watch τ α κ) : Prop where
  ctx : ∀ k, ∀ c ∈ s.pool.reqHash k, c.owner = t → (s.threads t).accepted = true
  dec : ∀ i task, (s.pool.workers i).pc = .dec task t → (s.threads t).accepted = true
  due : ∀ i, w.due i = some t → (s.threads t).accepted = true
  batches : ∀ e ∈ w.batches, e.1 = some t → (s.threads t).accepted = true

theorem Owned.worker {i : Fin 64} {o : Oracle} {p : Pool τ α κ} (h : Owned t s w) (hp : Pool.WorkerStep s.pool i o p) :
    Owned t { s with pool := p } (observe s w (.worker i o)) := by
  obtain ⟨hctx, hdec, hdue, hbatch⟩ := h
  refine ⟨fun k c hc hu => ?_, fun j task hj => ?_, fun j hj => ?_, fun e he hu => ?_⟩
  · obtain ⟨c₀, hc₀, hsame⟩ := hp.noNew k c hc
    exact hctx k c₀ hc₀ (hsame.1.symm.trans hu)
  · rcases eq_or_ne j i with rfl | hji
    swap
    · rw [show (({ s with pool := p } : PoolSys τ α κ).pool.workers j) = s.pool.workers j from
        Pool.workers_of_ne hp hji] at hj
      exact hdec j task hj
    cases hp with
    | findSome x c hpc hf =>
      simp only [Pool.setPc_workers_self, WorkerPc.dec.injEq] at hj
      exact hctx _ c (List.mem_of_find?_eq_some hf) hj.2
    | dec x ctx c hpc hd =>
      simp only [Pool.setPc_workers_self] at hj
      split at hj <;> cases hj
    | decDangling x ctx hpc hd =>
      simp only [Pool.setPc_workers_self] at hj
      split at hj <;> cases hj
    | park st pc hpc hq hpark =>
      rcases hpark with ⟨rfl, -⟩ | ⟨rfl, -⟩ <;> simp at hj
    | finish x st pc hpc hpark =>
      rcases hpark with ⟨rfl, -⟩ | ⟨rfl, -⟩ <;> simp at hj
    | _ => simp at hj
  · cases hpc : (s.pool.workers i).pc with
    | dec x ctx =>
      simp only [observe, hpc] at hj
      rcases eq_or_ne j i with rfl | hji
      · rw [Function.update_self] at hj
        cases hj
        exact hdec j x hpc
      · rw [Function.update_of_ne hji] at hj
        exact hdue j hj
    | _ =>
      simp only [observe, hpc] at hj
      exact hdue j hj
  · cases hpc : (s.pool.workers i).pc with
    | batch x cb =>
      simp only [observe, hpc] at he
      rcases List.mem_append.1 he with he | he
      · exact hbatch e he hu
      · cases cb with
        | none => cases he
        | some cb =>
          obtain rfl := List.mem_singleton.1 he
          exact hdue i hu
    | _ =>
      simp only [observe, hpc] at he
      exact hbatch e he hu

theorem Owned.step (h : Owned t s w) (ht : ∀ u, Tracked s u) (hs : s.step a = some s') :
    Owned t s' (observe s w a) := by
  have hacc := fun hu => accepted_step ht hs (t := t) hu
  cases step_cases hs with
  | worker i o p hp => exact h.worker hp
  | call u c o hu =>
    exact ⟨fun k c hc hc' => hacc (h.ctx k c hc hc'), fun i task hi => hacc (h.dec i task hi), fun i hi => hacc (h.due i hi),
      fun e he he' => hacc (h.batches e he he')⟩
  | thread u o p pc hp =>
    refine ⟨fun k c hc hc' => ?_, fun i task hi => ?_, fun i hi => hacc (h.due i hi), fun e he he' => hacc (h.batches e he he')⟩
    · rcases hp.noNew with hno | ⟨b, i, nodes, -, rfl, rfl⟩
      · obtain ⟨c₀, hc₀, hsame⟩ := hno k c hc
        exact hacc (h.ctx k c₀ hc₀ (hsame.1.symm.trans hc'))
      · change c ∈ Function.update s.pool.reqHash (hashReqId b.requestId) _ k at hc
        rcases eq_or_ne k (hashReqId b.requestId) with rfl | hk
        · rw [Function.update_self] at hc
          rcases List.mem_cons.1 hc with rfl | hc
          · obtain rfl : u = t := hc'
            rw [setThread_threads, if_pos rfl]
            rfl
          · exact hacc (h.ctx _ c hc hc')
        · rw [Function.update_of_ne hk] at hc
          exact hacc (h.ctx k c hc hc')
    · have hi' : (p.workers i).pc = .dec task t := hi
      rw [(Pool.threadStep_worker hp i).1] at hi'
      exact hacc (h.dec i task hi')

/-- The outcome of the tasks of the submission `b`, made as call `t`, where `ret` is what their functions return:
every finished task has had its `complete_cb` called once, after its function returned, with the id that the call
handed back for it and the callback that was given for it, and with `success` as its function returned; and the batch
callback got `success` only when all the tasks had returned 0. -/
structure Reported (ret : ThreadPoolTask τ α κ → Int32) (t : τ) (b : Submit α κ) (x : World τ α κ) : Prop where
  completeCbs : x.sys.pool.hist.completeCbs = x.watch.finished.filterMap ThreadPoolTask.completion
  batchCbs : x.sys.pool.hist.batchCbs.map Prod.snd = x.watch.batches.map Prod.snd
  once : (x.watch.finished.filter fun task => task.owner == t).Nodup
  after : ∀ task ∈ x.watch.finished, task.owner = t → task ∈ x.sys.pool.hist.returned
  called : ∀ task ∈ x.sys.pool.hist.returned, task.owner = t →
    task ∈ x.watch.finished ∨ ∃ i, (x.sys.pool.workers i).pc = .complete task
  told : ∀ task ∈ x.watch.finished, task.owner = t → ∀ cb, b.completeCb = some cb → ∃ id success,
    task.completion = some (id, success, cb) ∧ (success = true ↔ ret task = 0) ∧
      ∀ ids, x.answers t = some (.ids ids) → ids[task.index]? = some id
  batch : ∀ success cb, (some t, success, cb) ∈ x.watch.batches → success = true →
    ∀ i nodes, (t, i, nodes) ∈ x.sys.pool.hist.attached → ∀ task ∈ nodes,
      task ∈ x.sys.pool.hist.returned ∧ ret task = 0

/-- A function of the call `t` returns 0, and a worker about to count a context of `t` down that has a batch callback
finds more counted there than tasks of `t` have not returned. -/
def Truthful (ret : ThreadPoolTask τ α κ → Int32) (t : τ) (p : Pool τ α κ) : WorkerPc τ α κ → Prop
  | .func task => task.owner = t → ret task = 0
  | .dec task ctx => ctx = t → ∀ c ∈ p.deref task.requestId ctx, c.batchCb ≠ none →
    (p.unreturned t : Int) < c.pendingCount.toInt
  | _ => True

instance [DecidableEq κ] (ret : ThreadPoolTask τ α κ → Int32) (t : τ) (p : Pool τ α κ) :
    (pc : WorkerPc τ α κ) → Decidable (Truthful ret t p pc)
  | .func _ => inferInstanceAs (Decidable (_ → _))
  | .dec .. => inferInstanceAs (Decidable (_ → ∀ _ ∈ _, _ → _))
  | .wait | .complete _ | .find _ | .batch .. | .remove _ | .finish _ | .exited => isTrue trivial

/-- The step keeps what the callbacks of `t` say true. -/
def Succeeds (ret : ThreadPoolTask τ α κ → Int32) (t : τ) (x : World τ α κ) : Move τ α κ → Prop
  | .act (.worker i _) _ => Truthful ret t x.sys.pool (x.sys.pool.workers i).pc
  | _ => True

instance [DecidableEq κ] (ret : ThreadPoolTask τ α κ → Int32) (t : τ) (x : World τ α κ) :
    (m : Move τ α κ) → Decidable (Succeeds ret t x m)
  | .act (.worker _ _) _ => inferInstanceAs (Decidable (Truthful ..))
  | .act (.call ..) _ | .act (.thread ..) _ | .answer .. => isTrue trivial

/-- All tasks that the call `t` has attached have returned. -/
def Through (t : τ) (p : Pool τ α κ) : Prop :=
  ∀ i nodes, (t, i, nodes) ∈ p.hist.attached → ∀ task ∈ nodes, task ∈ p.hist.returned

/-- What is known of the call `t` with the submission `b` throughout a run. -/
structure Watching (ret : ThreadPoolTask τ α κ → Int32) (t : τ) (b : Submit α κ) (s : PoolSys τ α κ)
    (w : Watch τ α κ) : Prop where
  tracked : ∀ u, Tracked s u
  made : MadeBy t b s
  given : Given t b s
  finishing : s.pool.Finishing t w.finished
  owned : Owned t s w
  zero : ∀ task ∈ s.pool.hist.returned, task.owner = t → ret task = 0
  due : ∀ i task cb, (s.pool.workers i).pc = .batch task (some cb) → w.due i = some t → Through t s.pool
  batch : ∀ e ∈ w.batches, e.1 = some t → Through t s.pool

theorem returned_mono (hs : s.step a = some s') {task : ThreadPoolTask τ α κ} (h : task ∈ s.pool.hist.returned) :
    task ∈ s'.pool.hist.returned := by
  cases step_cases hs with
  | call u c o hu => exact h
  | worker i o p hp =>
    cases hp with
    | func x hpc => exact List.mem_append_left _ h
    | _ => exact h
  | thread u o p pc hp =>
    generalize s.threads u = pc₀ at hp
    cases hp with
    | cancelUpdate => rw [setThread_pool]; split <;> exact h
    | cancelUpdateDangling => rw [setThread_pool]; split <;> exact h
    | _ => exact h

omit [DecidableEq τ] in
theorem mem_lane_attached [DecidableEq τ] {p : Pool τ α κ} {i : Fin 64} {nodes : List (ThreadPoolTask τ α κ)} :
    (i, nodes) ∈ (p.lane t).attached ↔ (t, i, nodes) ∈ p.hist.attached := by
  simp [Pool.lane]

theorem attached_step (ht : ∀ u, Tracked s u) (hacc : (s.threads t).accepted = true) (hs : s.step a = some s') :
    (s'.pool.lane t).attached = (s.pool.lane t).attached := by
  rcases lane_step hs (fun u => (ht u).made) t with ⟨hstep, -⟩ | ⟨-, b, i, nodes, hpc, -⟩
  · exact hstep.attached_eq
  · rw [hpc] at hacc
    cases hacc

theorem Through.step (h : Through t s.pool) (ht : ∀ u, Tracked s u) (hacc : (s.threads t).accepted = true)
    (hs : s.step a = some s') : Through t s'.pool := by
  intro i nodes hatt task hmem
  have hatt := mem_lane_attached.2 hatt
  rw [attached_step ht hacc hs] at hatt
  exact returned_mono hs (h i nodes (mem_lane_attached.1 hatt) task hmem)

/-- When no task of the call is queued, running or cancelled, all have returned. -/
theorem through_of_unreturned (h : s.pool.unreturned t = 0) (ht : Tracked s t) (hacc : (s.threads t).accepted = true) :
    Through t s.pool := by
  obtain ⟨hbusy, hcancel⟩ := Nat.add_eq_zero_iff.1 h
  have hbusy : ∀ i, (s.pool.lane t).queued i = [] ∧ (s.pool.lane t).running i = [] := fun i => by
    have := Finset.sum_eq_zero_iff.1 hbusy i (Finset.mem_univ i)
    exact (Nat.add_eq_zero_iff.1 this).imp List.eq_nil_of_length_eq_zero List.eq_nil_of_length_eq_zero
  intro i nodes hatt task hmem
  obtain ⟨b, v, nodes', pre, suf, hm, -, hsplit⟩ := ht.split hacc
  have hatt' := mem_lane_attached.2 hatt
  rw [hsplit.attached] at hatt'
  cases List.mem_singleton.1 hatt'
  have hsuf : suf = [] := by
    rcases hsplit.rest with hq | ⟨-, r, -, hc⟩
    · rw [← hq, (hbusy i).1]
    · have := List.sum_eq_zero_iff.1 hcancel _ (List.mem_map_of_mem (f := fun e => e.2.2.length) hc)
      exact List.eq_nil_of_length_eq_zero this
  have hret : task ∈ (s.pool.lane t).returned := by
    have hex := hsplit.executed
    rw [(hbusy i).2, List.append_nil] at hex
    rw [hex]
    rwa [hsplit.append, hsuf, List.append_nil] at hmem
  exact (List.mem_filter.1 hret).1

section
variable {ret : ThreadPoolTask τ α κ → Int32}

/-- A worker that comes to call the callback of a context of `t` has counted it down to 0, so nothing of `t` is left. -/
theorem Watching.due_step (h : Watching ret t b s w) {i : Fin 64} {o : Oracle} {p : Pool τ α κ}
    (hc : Truthful ret t s.pool (s.pool.workers i).pc) (hp : Pool.WorkerStep s.pool i o p)
    {task : ThreadPoolTask τ α κ} {cb : κ} (hpc : (p.workers i).pc = .batch task (some cb))
    (hdue : (observe s w (.worker i o)).due i = some t) : Through t s.pool := by
  cases hp with
  | dec x ctx c hdec hd =>
    have hctx : ctx = t := by
      rw [observe, hdec] at hdue
      simpa using hdue
    subst hctx
    simp only [Pool.setPc_workers_self] at hpc
    split at hpc
    swap
    · cases hpc
    rename_i hzero
    obtain ⟨c₀, hc₀, hcount, hcb⟩ := Pool.deref_of_addPending hd
    rw [hdec] at hc
    have hleft := hc rfl c₀ hc₀ (by rw [← hcb, (WorkerPc.batch.inj hpc).2]; exact Option.some_ne_none cb)
    have hone : c₀.pendingCount = 1 := by
      rw [hcount] at hzero
      grind
    rw [hone, show (1 : Int32).toInt = 1 by decide] at hleft
    exact through_of_unreturned (by omega) (h.tracked _) (h.owned.dec i x hdec)
  | decDangling x ctx hdec hd =>
    simp only [Pool.setPc_workers_self] at hpc
    split at hpc <;> cases hpc
  | park st pc hpc' hq hpark =>
    rcases hpark with ⟨rfl, -⟩ | ⟨rfl, -⟩ <;> simp at hpc
  | finish x st pc hpc' hpark =>
    rcases hpark with ⟨rfl, -⟩ | ⟨rfl, -⟩ <;> simp at hpc
  | _ => simp at hpc

theorem Watching.step (h : Watching ret t b s w) (hc : ∀ i o, a = .worker i o → Truthful ret t s.pool (s.pool.workers i).pc)
    (hs : s.step a = some s') : Watching ret t b s' (observe s w a) where
  tracked := tracked_step h.tracked hs
  made := h.made.step h.tracked hs
  given := h.given.step h.made hs
  finishing := finishing_step h.finishing h.tracked hs
  owned := h.owned.step h.tracked hs
  zero task hret hu := by
    cases step_cases hs with
    | call u c o hidle => exact h.zero task hret hu
    | thread u o p pc hp =>
      rw [setThread_pool, Pool.threadStep_returned hp] at hret
      exact h.zero task hret hu
    | worker i o p hp =>
      have hc := hc i o rfl
      cases hp with
      | func x hpc =>
        rcases List.mem_append.1 hret with hret | hret
        · exact h.zero task hret hu
        · obtain rfl := List.mem_singleton.1 hret
          rw [hpc] at hc
          exact hc hu
      | _ => exact h.zero task hret hu
  due j task cb hpc hdue := by
    cases step_cases hs with
    | call u c o hidle => exact (h.due j task cb hpc hdue).step h.tracked (h.owned.due j hdue) hs
    | thread u o p pc hp =>
      rw [setThread_pool, (Pool.threadStep_worker hp j).1] at hpc
      exact (h.due j task cb hpc hdue).step h.tracked (h.owned.due j hdue) hs
    | worker i o p hp =>
      have hacc : (s.threads t).accepted = true := (h.owned.worker hp).due j hdue
      rcases eq_or_ne j i with rfl | hji
      · exact (h.due_step (hc j o rfl) hp hpc hdue).step h.tracked hacc hs
      · have hsame : (observe s w (.worker i o)).due j = w.due j := by
          cases hpc' : (s.pool.workers i).pc <;> simp only [observe, hpc', Function.update_of_ne hji]
        rw [hsame] at hdue
        rw [show ({ s with pool := p } : PoolSys τ α κ).pool.workers j = s.pool.workers j from
          Pool.workers_of_ne hp hji] at hpc
        exact (h.due j task cb hpc hdue).step h.tracked hacc hs
  batch e he hu := by
    have hold : e ∈ w.batches → Through t s'.pool := fun he =>
      (h.batch e he hu).step h.tracked (h.owned.batches e he hu) hs
    cases a with
    | worker i o =>
      cases hpc : (s.pool.workers i).pc with
      | batch x cb =>
        simp only [observe, hpc] at he
        rcases List.mem_append.1 he with he | he
        · exact hold he
        · cases cb with
          | none => cases he
          | some cb =>
            obtain rfl := List.mem_singleton.1 he
            exact (h.due i x cb hpc hu).step h.tracked (h.owned.due i hu) hs
      | _ =>
        simp only [observe, hpc] at he
        exact hold he
    | _ => exact hold he

theorem finishing_start (t : τ) : (start : PoolSys τ α κ).pool.Finishing t [] where
  returned i task hi := by cases hi
  pending i task hi := by cases hi
  alone i j task hi := by cases hi
  once := List.nodup_nil
  after task ht := by cases ht
  called task ht := by cases ht

omit [DecidableEq τ] in
theorem owned_start (t : τ) : Owned t (start : PoolSys τ α κ) {} where
  ctx k c hc := by cases hc
  dec i task hd := by cases hd
  due i hd := by cases hd
  batches e he := by cases he

omit [DecidableEq τ] in
theorem enter_kept (p : Pool τ α κ) (o : Oracle) (c : Call α κ) (t : τ) :
    (enter p o c).nodes = [] ∧ (enter p o c).Kept t p.hist.attached := by
  cases c with
  | submitTask r arg cb =>
    simp only [enter]
    split <;> exact ⟨rfl, trivial⟩
  | submitBatch b =>
    simp only [enter]
    split
    · exact ⟨rfl, trivial⟩
    split
    · exact ⟨rfl, trivial⟩
    split <;> exact ⟨rfl, trivial⟩
  | wakeUp r => exact ⟨rfl, trivial⟩
  | cancel r =>
    simp only [enter]
    split <;> exact ⟨rfl, trivial⟩

theorem watching_call {c : Call α κ} {o : Oracle} (htr : ∀ u, Tracked s u) (hfin : s.pool.Finishing t w.finished)
    (hown : Owned t s w) (hcall : s.step (.call t c o) = some s') (hb : c.submit? = some b) : Watching ret t b s' w := by
  have hown' : Owned t s' w := hown.step htr hcall
  cases step_cases hcall with
  | call u c o ht =>
  have hidle : (s.threads t).accepted = false := by rw [ht]; rfl
  have hunused := (htr t).unused hidle
  have hno : ∀ task ∈ s.pool.hist.returned, task.owner ≠ t := by
    intro task htask hu
    have : task ∈ (s.pool.lane t).returned := List.mem_filter.2 ⟨htask, by simpa using hu⟩
    rw [hunused.returned] at this
    cases this
  have hatt : ∀ e ∈ s.pool.hist.attached, e.1 ≠ t := by
    intro e he hu
    have := mem_lane_attached.2 (show (t, e.2.1, e.2.2) ∈ s.pool.hist.attached from hu ▸ he)
    rw [hunused.attached] at this
    cases this
  obtain ⟨hnodes, hkept⟩ := enter_kept s.pool o c t
  have hself : (s.setThread t (enter s.pool o c)).threads t = enter s.pool o c := by rw [setThread_threads, if_pos rfl]
  refine ⟨tracked_step htr hcall, madeBy_call (htr t) hb hcall, ⟨?_, fun e he hu => absurd hu (hatt e he), ?_⟩, hfin, hown',
    fun task htask hu => absurd hu (hno task htask), fun i task cb _ hdue => ?_, fun e he hu => ?_⟩
  · rw [hself, hnodes]
    simp
  · rw [hself]
    exact hkept
  · have := hown.due i hdue
    rw [hidle] at this
    cases this
  · have := hown.batches e he hu
    rw [hidle] at this
    cases this

theorem Watching.told (h : Watching ret t b s w) {task : ThreadPoolTask τ α κ} (hret : task ∈ s.pool.hist.returned)
    (hu : task.owner = t) : Told b task ∧ ∀ ids, s.threads t = .done (.ids ids) → ids[task.index]? = some task.taskId := by
  have hlane : task ∈ (s.pool.lane t).returned := List.mem_filter.2 ⟨hret, by simpa using hu⟩
  cases hacc : (s.threads t).accepted with
  | false =>
    rw [((h.tracked t).unused hacc).returned] at hlane
    cases hlane
  | true =>
  obtain ⟨b', v, nodes, pre, suf, hm, -, hsplit⟩ := (h.tracked t).split hacc
  have hmem : task ∈ nodes := by
    rw [hsplit.append, ← hsplit.executed]
    exact List.mem_append_left _ (List.mem_append_left _ hlane)
  have hatt : (t, v, nodes) ∈ s.pool.hist.attached := mem_lane_attached.1 (by rw [hsplit.attached]; exact List.mem_singleton_self _)
  refine ⟨h.given.attached _ hatt rfl task hmem, fun ids hids => ?_⟩
  have hkept := h.given.kept
  rw [hids] at hkept
  obtain ⟨i, nodes', hatt', rfl⟩ := hkept
  have hatt' := mem_lane_attached.2 hatt'
  rw [hsplit.attached] at hatt'
  cases List.mem_singleton.1 hatt'
  obtain ⟨k, hk⟩ := List.getElem?_of_mem hmem
  rw [(hm k task hk).2.2.1, List.getElem?_map, hk, Option.map_some]

end

end PoolSys

namespace World
open PoolSys
variable {τ α κ : Type} [DecidableEq τ] {x x₀ x₁ : World τ α κ} {ms ms' : List (Move τ α κ)} {t : τ} {b : Submit α κ}
  {c : Call α κ} {o : Oracle} {v : Tenant τ}

theorem watched (h : exec World.step start ms = some x) (hn : Along World.step NoStray start ms) (t : τ) :
    (∀ u, Tracked x.sys u) ∧ x.sys.pool.Finishing t x.watch.finished ∧ Owned t x.sys x.watch :=
  exec_watch (C := fun _ _ => True) (I := fun s w => (∀ u, Tracked s u) ∧ s.pool.Finishing t w.finished ∧ Owned t s w)
    (fun _ _ _ _ hx _ hs => ⟨tracked_step hx.1 hs, finishing_step hx.2.1 hx.1 hs, hx.2.2.step hx.1 hs⟩)
    ⟨tracked_start, finishing_start t, owned_start t⟩ (hn.mono fun _ _ hm => ⟨hm, trivial⟩) h

theorem answered (h : exec World.step start ms = some x) (hn : Along World.step NoStray start ms) {ret : Ret}
    (ha : x.answers t = some ret) : ∃ ret', x.sys.threads t = .done ret' := by
  refine exec_inv (I := fun x : World τ α κ => ∀ ret, x.answers t = some ret → ∃ ret', x.sys.threads t = .done ret')
    (fun x m x' hx hm hs => ?_) (fun _ hret => by cases hret) hn h ret ha
  cases step_cases hm hs with
  | act a v s' hpool =>
    intro ret hret
    obtain ⟨ret', ht⟩ := hx ret hret
    exact ⟨ret', done_step ht hpool⟩
  | answer u id ret hu hnone =>
    intro ret' hret
    rcases eq_or_ne t u with rfl | htu
    · exact ⟨ret, hu⟩
    · change Function.update x.answers u _ t = some ret' at hret
      rw [Function.update_of_ne htu] at hret
      exact hx ret' hret

theorem call_cases (hcall : x₀.step (.act (.call t c o) v) = some x₁) : x₀.sys.step (.call t c o) = some x₁.sys ∧
    x₁.watch = x₀.watch ∧ x₁.answers = x₀.answers ∧ x₀.sys.threads t = .idle := by
  have hn : x₀.NoStray (.act (.call t c o) v) := rfl
  cases step_cases hn hcall with
  | act a v s' hpool =>
    have hidle : x₀.sys.threads t = .idle := by
      cases PoolSys.step_cases hpool with
      | call u c o hidle => exact hidle
    exact ⟨hpool, rfl, rfl, hidle⟩

/-- One task under the id 7, its `complete_cb` is 0 and its `batch_cb` is 1. -/
def oneOfSeven : Submit Unit (Fin 2) :=
  { batch := true, requestId := 7, args := [()], completeCb := some 0, batchCb := some 1, args_ne := by simp, count_lt := by simp }

/-- Call 0 submits the batch. -/
def oneCalled : World (Fin 2) Unit (Fin 2) :=
  last World.step start [.act (.call 0 (.submitBatch ⟨[(7, ())], some 0, some 1, by decide⟩) {}) .other] (by decide +kernel)

/-- It is queued, the ids are handed back, it is woken for, and worker 0 executes it. -/
def oneRun : List (Move (Fin 2) Unit (Fin 2)) :=
  quietMoves (List.replicate 5 (.thread 0 {})) ++ .answer 0 0 ::
    quietMoves (.call 1 (.wakeUp 7) {} :: List.replicate 3 (.thread 1 {}) ++ List.replicate 8 (.worker 0 {}))

def oneExecuted : World (Fin 2) Unit (Fin 2) := last World.step oneCalled oneRun (by decide +kernel)

theorem oneExecuted_run : exec World.step oneCalled oneRun = some oneExecuted := exec_last _

end World
end OsTransport
