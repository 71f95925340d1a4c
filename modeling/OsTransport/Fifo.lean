import OsTransport.Lib.Lane
import OsTransport.Reuse
import OsTransport.ThreadPoolCases

/-!
# Batches in the worker queues

What the pool does to the tasks of one call is a `Lane`: every step of a worker and of any call takes,
finishes or cancels tasks of the lane or leaves it alone (`Pool.lane_workerStep`,
`Pool.lane_threadStep`), and the call itself attaches its tasks once. So an accepted batch is at every
moment a prefix already taken, in array order, and a suffix that is still queued on one worker or was
cancelled in full (`PoolSys.submitBatch_split`), as long as no section writes to a context that has been
freed: such a write can change the request id of a queued task (`PoolSys.struckEnd_notSplit`).
-/

namespace OsTransport

namespace WorkerPc
variable {τ α κ : Type}

/-- The task whose function is running. -/
def current : WorkerPc τ α κ → List (ThreadPoolTask τ α κ)
  | .func task => [task]
  | _ => []

@[simp] theorem current_func (task : ThreadPoolTask τ α κ) : (func task).current = [task] := rfl

end WorkerPc

namespace Pool
variable {τ α κ : Type} [DecidableEq τ] (p : Pool τ α κ) (t : τ)

/-- What is to be seen of the tasks of the call `t`. -/
def lane : Lane (Fin 64) (ThreadPoolTask τ α κ) UInt32 where
  attached := (p.hist.attached.filter fun e => e.1 == t).map Prod.snd
  queued i := (p.workers i).queue.filter fun task => task.owner == t
  running i := (p.workers i).pc.current.filter fun task => task.owner == t
  taken := p.hist.taken.filter fun e => e.2.owner == t
  returned := p.hist.returned.filter fun task => task.owner == t
  cancelled := p.hist.cancelled.map fun e => (e.1, e.2.1, e.2.2.filter fun task => task.owner == t)

theorem lane_eq {p p' : Pool τ α κ} {i : Fin 64} {w : WorkerThread τ α κ}
    (hw : p'.workers = Function.update p.workers i w) (t : τ) :
    p'.lane t = { p'.lane t with
      queued := Function.update (p.lane t).queued i (w.queue.filter fun task => task.owner == t)
      running := Function.update (p.lane t).running i
        (w.pc.current.filter fun task => task.owner == t) } := by
  have h {β : Type} (f : WorkerThread τ α κ → β) : (fun j => f (p'.workers j)) =
      Function.update (fun j => f (p.workers j)) i (f w) := by
    funext j
    simp only [hw, Function.update_apply]
    split <;> rfl
  simp only [lane]
  congr 1
  · exact h fun w => w.queue.filter fun task => task.owner == t
  · exact h fun w => w.pc.current.filter fun task => task.owner == t

theorem lane_step {p p' : Pool τ α κ} {t : τ} {i : Fin 64} {w : WorkerThread τ α κ}
    (hw : p'.workers = Function.update p.workers i w)
    (h : Lane.Step (fun task => task.requestId) (p.lane t) { p'.lane t with
      queued := Function.update (p.lane t).queued i (w.queue.filter fun task => task.owner == t)
      running := Function.update (p.lane t).running i
        (w.pc.current.filter fun task => task.owner == t) }) :
    Lane.Step (fun task => task.requestId) (p.lane t) (p'.lane t) :=
  lane_eq hw t ▸ h

theorem lane_setWorker_same {i : Fin 64} {w : WorkerThread τ α κ} (hq : w.queue = (p.workers i).queue)
    (hpc : w.pc.current = (p.workers i).pc.current) : (p.setWorker i w).lane t = p.lane t := by
  rw [lane_eq (i := i) (w := w) (p := p) rfl t, hq, hpc]
  simp only [lane, Function.update_eq_self, setWorker_hist]

theorem lane_workerStep {p p' : Pool τ α κ} {i : Fin 64} {o : Oracle} (h : WorkerStep p i o p') (t : τ) :
    Lane.Step (fun task => task.requestId) (p.lane t) (p'.lane t) := by
  cases h with
  | park st pc hpc hq hpark =>
    refine .of_eq (lane_setWorker_same p t rfl ?_)
    rcases hpark with ⟨rfl, -⟩ | ⟨rfl, -⟩ <;> simp [hpc, WorkerPc.current]
  | take task rest hpc hr hpop =>
    have hidle : (p.lane t).running i = [] := by simp [lane, hpc, WorkerPc.current]
    refine lane_step (i := i) rfl ?_
    by_cases ht : task.owner = t
    · obtain ⟨a, b, hq, rfl, ha, hx⟩ := popFirst_eq_some.1 hpop
      have hstep : Lane.Step (fun task => task.requestId) (p.lane t) _ := .take i task
        (a.filter fun task => task.owner == t) (b.filter fun task => task.owner == t)
        (by simp [lane, hq, ht])
        (fun y hy => by
          have hy' := ha y (List.mem_of_mem_filter hy)
          simp only [beq_eq_false_iff_ne, beq_iff_eq] at hy' hx
          rwa [hx]) hidle
      simpa [lane, WorkerPc.current, ht, List.filter_append] using hstep
    · have hrest := filter_popFirst_of_not (q := fun task => task.owner == t) hpop (by simpa using ht)
      have hrun : Function.update (p.lane t).running i [] = (p.lane t).running := by
        rw [← hidle, Function.update_eq_self]
      refine .of_eq ?_
      simp only [WorkerPc.current_func, List.filter_cons, List.filter_nil, beq_eq_false_iff_ne.2 ht,
        Bool.false_eq_true, if_false, hrun, hrest]
      simp only [lane, List.filter_append, List.filter_cons, List.filter_nil, beq_eq_false_iff_ne.2 ht,
        Bool.false_eq_true, if_false, List.append_nil, Function.update_eq_self]
  | func task hpc =>
    refine lane_step (i := i) rfl ?_
    by_cases ht : task.owner = t
    · have hstep : Lane.Step (fun task => task.requestId) (p.lane t) _ := .finish i task
        (by simp [lane, hpc, WorkerPc.current, ht])
      simpa [lane, WorkerPc.current, ht, List.filter_append] using hstep
    · have hrun : Function.update (p.lane t).running i [] = (p.lane t).running := by
        rw [show [] = (p.lane t).running i by simp [lane, hpc, ht], Function.update_eq_self]
      refine .of_eq ?_
      simp only [hrun, show (WorkerPc.complete task).current = [] from rfl, List.filter_nil]
      simp only [lane, List.filter_append, List.filter_cons, List.filter_nil, beq_eq_false_iff_ne.2 ht,
        Bool.false_eq_true, if_false, List.append_nil, Function.update_eq_self]
  | complete task cbs hpc =>
    exact .of_eq (lane_setWorker_same p t rfl (by rw [hpc]; rfl))
  | findSome task ctx hpc hf =>
    exact .of_eq (lane_setWorker_same p t rfl (by rw [hpc]; rfl))
  | findNone task hpc hf =>
    exact .of_eq (lane_setWorker_same p t rfl (by rw [hpc]; rfl))
  | dec task ctx c hpc hd =>
    refine .of_eq (lane_setWorker_same _ t rfl ?_)
    rw [addPending_workers, hpc]
    split <;> rfl
  | decDangling task ctx hpc hd =>
    refine .of_eq (lane_setWorker_same _ t rfl ?_)
    rw [addPending_workers, hpc]
    split <;> rfl
  | batch task cb cbs hpc =>
    exact .of_eq (lane_setWorker_same p t rfl (by rw [hpc]; rfl))
  | remove task hpc =>
    exact .of_eq (lane_setWorker_same _ t rfl (by rw [removeReqContext_workers, hpc]; rfl))
  | finish task st pc hpc hpark =>
    refine .of_eq (lane_setWorker_same p t rfl ?_)
    rcases hpark with ⟨rfl, -⟩ | ⟨rfl, -⟩ <;> simp [hpc, WorkerPc.current]

end Pool

/-- `nodes` are the first tasks of the submission `b` of call `t`, in array order. -/
def Made {τ α κ : Type} (t : τ) (b : Submit α κ) (nodes : List (ThreadPoolTask τ α κ)) : Prop :=
  ∀ (k : Nat) (task : ThreadPoolTask τ α κ), nodes[k]? = some task → task.owner = t ∧
    task.requestId = b.requestId ∧ task.index = k ∧ b.args[k]? = some task.taskArg.userArg

namespace Made
variable {τ α κ : Type} {t : τ} {b : Submit α κ} {nodes : List (ThreadPoolTask τ α κ)}

theorem nil : Made t b ([] : List (ThreadPoolTask τ α κ)) := by
  intro k task h
  simp at h

theorem snoc (h : Made t b nodes) (p : Pool τ α κ) {arg : α} (ha : b.args[nodes.length]? = some arg) :
    Made t b (nodes ++ [p.createNode t b nodes.length arg]) := by
  intro k task hk
  rcases Nat.lt_trichotomy k nodes.length with hlt | rfl | hgt
  · rw [List.getElem?_append_left hlt] at hk
    exact h k task hk
  · rw [List.getElem?_concat_length] at hk
    obtain rfl := Option.some.inj hk
    exact ⟨rfl, rfl, rfl, ha⟩
  · rw [List.getElem?_eq_none (by simp; omega)] at hk
    cases hk

theorem length_le (h : Made t b nodes) : nodes.length ≤ b.args.length := by
  by_contra hlt
  have hn : b.args.length < nodes.length := by omega
  have := (h b.args.length _ (List.getElem?_eq_getElem hn)).2.2.2
  simp at this

theorem of_mem (h : Made t b nodes) {task : ThreadPoolTask τ α κ} (hm : task ∈ nodes) :
    task.owner = t ∧ task.requestId = b.requestId := by
  obtain ⟨k, hk⟩ := List.getElem?_of_mem hm
  exact ⟨(h k task hk).1, (h k task hk).2.1⟩

theorem nodup (h : Made t b nodes) : nodes.Nodup := by
  refine List.Nodup.of_map (fun task => task.index) ?_
  have : nodes.map (fun task => task.index) = List.range nodes.length := by
    refine List.ext_getElem (by simp) fun k h₁ h₂ => ?_
    simp only [List.getElem_map, List.getElem_range]
    exact (h k _ (List.getElem?_eq_getElem (by simpa using h₁))).2.2.1
  rw [this]
  exact List.nodup_range

/-- The tasks made for a request are all of it or none. -/
theorem filter_eq (h : Made t b nodes) (r : UInt32) :
    nodes.filter (fun task => task.requestId == r) = if b.requestId = r then nodes else [] := by
  split
  · rename_i hr
    exact List.filter_eq_self.2 fun task hm => by simpa [← hr] using (h.of_mem hm).2
  · rename_i hr
    exact List.filter_eq_nil_iff.2 fun task hm => by simpa [(h.of_mem hm).2] using hr

theorem args_eq (h : Made t b nodes) (hlen : nodes.length = b.args.length) :
    nodes.map (fun task => task.taskArg.userArg) = b.args := by
  refine List.ext_getElem (by simpa using hlen) fun k h₁ h₂ => ?_
  have hk : k < nodes.length := by simpa using h₁
  have := (h k _ (List.getElem?_eq_getElem hk)).2.2.2
  rw [List.getElem?_eq_getElem h₂] at this
  simpa using this.symm

end Made

namespace Pc
variable {τ α κ : Type}

/-- The tasks have been attached to a queue. -/
def accepted : Pc τ α κ → Bool
  | .findCtx .. | .bump .. | .insert .. | .done (.ids _) => true
  | _ => false

/-- Inside a submission. -/
def submitting : Pc τ α κ → Bool
  | .select .. | .create .. | .attach .. | .findCtx .. | .bump .. | .insert .. => true
  | _ => false

/-- The submission a call is inside of. -/
def submit? : Pc τ α κ → Option (Submit α κ)
  | .select b .. | .create b .. | .attach b .. | .findCtx b .. | .bump b .. | .insert b .. => some b
  | _ => none

/-- The tasks made so far are the first ones of the array, and all of them when they are attached. -/
def Local (t : τ) : Pc τ α κ → Prop
  | .select b nodes _ _ _ => Made t b nodes ∧ (b.batch = false → nodes.length = b.args.length)
  | .create b _ nodes => Made t b nodes
  | .attach b _ nodes | .findCtx b _ nodes | .bump b nodes _ | .insert b _ nodes =>
    Made t b nodes ∧ nodes.length = b.args.length
  | _ => True

end Pc

/-- The submission of a call. -/
def Call.submit? {α κ : Type} : Call α κ → Option (Submit α κ)
  | .submitTask r arg cb => some (.single r arg cb)
  | .submitBatch b => b.validate
  | _ => none

theorem Batch.validate_eq_some {α κ : Type} {b : Batch α κ} {b' : Submit α κ} (h : b.validate = some b') :
    b'.batch = true ∧ b.tasks = b'.args.map (Prod.mk b'.requestId) := by
  unfold Batch.validate at h
  split at h
  · cases h
  rename_i task rest hb
  split at h
  · rename_i hall
    cases h
    refine ⟨rfl, ?_⟩
    have hid : ∀ x ∈ b.tasks, x.1 = task.1 := by
      rw [hb]
      intro x hx
      rcases List.mem_cons.1 hx with rfl | hx
      · rfl
      · simpa using List.all_eq_true.1 hall x hx
    rw [List.map_map]
    exact (List.map_id _).symm.trans (List.map_congr_left fun x hx => by simp [← hid x hx])
  · cases h

namespace Pool
variable {τ α κ : Type} [DecidableEq τ]

/-- What a section of the call `u` does to the lane of `t`: `t` itself attaches its tasks, or it is a
step of the lane. -/
theorem lane_threadStep {p p' : Pool τ α κ} {u : τ} {o : Oracle} {pc pc' : Pc τ α κ}
    (h : ThreadStep p u o pc p' pc') (hl : pc.Local u) (t : τ) :
    Lane.Step (fun task => task.requestId) (p.lane t) (p'.lane t) ∧ (u = t → pc'.accepted = pc.accepted) ∨
      u = t ∧ pc'.accepted = true ∧ ∃ b i nodes, pc = .attach b i nodes ∧
        p'.lane t = (p.lane t).attach i nodes := by
  cases h with
  | attach b i nodes size hm hs =>
    have hrun : Function.update (p.lane t).running i
        ((p.workers i).pc.current.filter fun task => task.owner == t) = (p.lane t).running :=
      Function.update_eq_self ..
    by_cases hu : u = t
    · refine .inr ⟨hu, rfl, b, i, nodes, rfl, ?_⟩
      have hnodes : nodes.filter (fun task => task.owner == t) = nodes :=
        List.filter_eq_self.2 fun task hm => by simpa [← hu] using (hl.1.of_mem hm).1
      refine (lane_eq (i := i) rfl t).trans ?_
      simp only [hrun, List.filter_append, hnodes]
      simp [lane, Lane.attach, hu]
    · refine .inl ⟨.of_eq ((lane_eq (i := i) rfl t).trans ?_), fun h => absurd h hu⟩
      have hnodes : nodes.filter (fun task => task.owner == t) = [] :=
        List.filter_eq_nil_iff.2 fun task hm => by simpa [(hl.1.of_mem hm).1] using hu
      simp only [hrun, List.filter_append, hnodes, List.append_nil]
      simp [lane, hu]
  | cancelQueue r ctx i hm =>
    refine .inl ⟨lane_step (i := i) rfl ?_, fun _ => by split <;> rfl⟩
    have hrun : Function.update (p.lane t).running i
        ((p.workers i).pc.current.filter fun task => task.owner == t) = (p.lane t).running :=
      Function.update_eq_self ..
    have hkept : ((p.workers i).queue.filter fun task => !(task.requestId == r)).filter
        (fun task => task.owner == t) =
        ((p.lane t).queued i).filter fun task => !decide (task.requestId = r) := by
      simp only [lane, List.filter_filter]
      exact List.filter_congr fun task _ => by rw [Bool.and_comm]; rfl
    have hremoved : (p.queued i r).filter (fun task => task.owner == t) =
        ((p.lane t).queued i).filter fun task => decide (task.requestId = r) := by
      simp only [lane, queued, List.filter_filter]
      exact List.filter_congr fun task _ => by rw [Bool.and_comm]; rfl
    have hstep : Lane.Step (fun task => task.requestId) (p.lane t) _ := .cancel i r
    rw [← hkept, ← hremoved] at hstep
    simp only [hrun]
    simpa [lane] using hstep
  | select b nodes i best minLoad hm =>
    refine .inl ⟨.refl, fun _ => ?_⟩
    rcases p.selectStep_cases b nodes i best minLoad with ⟨j, best', minLoad', h⟩ | ⟨w, h⟩ | h <;> rw [h]
    · rfl
    · unfold afterSelect
      split <;> rfl
    · rfl
  | create b worker nodes arg ha =>
    refine .inl ⟨.refl, fun _ => ?_⟩
    unfold afterCreate
    split
    · rfl
    · split <;> rfl
  | cancelUpdate r ctx n c hd =>
    refine .inl ⟨.of_eq ?_, fun _ => rfl⟩
    split <;> rfl
  | cancelUpdateDangling r ctx n hd =>
    refine .inl ⟨.of_eq ?_, fun _ => rfl⟩
    split <;> rfl
  | wakeSet r i hm => exact .inl ⟨.of_eq (lane_setWorker_same p t rfl rfl), fun _ => rfl⟩
  | _ => exact .inl ⟨.refl, fun _ => rfl⟩

theorem local_threadStep {p p' : Pool τ α κ} {t : τ} {o : Oracle} {pc pc' : Pc τ α κ}
    (h : ThreadStep p t o pc p' pc') (hl : pc.Local t) :
    pc'.Local t ∧ (∀ b, pc'.submit? = some b → pc.submit? = some b) ∧ pc' ≠ .idle := by
  cases h with
  | select b nodes i best minLoad hm =>
    rcases p.selectStep_cases b nodes i best minLoad with ⟨j, best', minLoad', h⟩ | ⟨w, h⟩ | h <;> rw [h]
    · exact ⟨hl, fun _ => id, by simp⟩
    · unfold afterSelect
      split
      · exact ⟨Made.nil, fun _ => id, by simp⟩
      · rename_i hb
        exact ⟨⟨hl.1, hl.2 (by simpa using hb)⟩, fun _ => id, by simp⟩
    · exact ⟨trivial, by simp [Pc.submit?], by simp⟩
  | create b worker nodes arg ha =>
    have hmade := Made.snoc hl p ha
    unfold afterCreate
    split
    · exact ⟨hmade, fun _ => id, by simp⟩
    · rename_i hlen
      have hall := Nat.le_antisymm hmade.length_le (Nat.le_of_not_lt hlen)
      split
      · exact ⟨⟨hmade, hall⟩, fun _ => id, by simp⟩
      · exact ⟨⟨hmade, fun _ => hall⟩, fun _ => id, by simp⟩
  | cancelQueue r ctx i hm => split <;> exact ⟨trivial, by simp [Pc.submit?], by simp⟩
  | attach b i nodes size hm hs => exact ⟨hl, fun _ => id, by simp⟩
  | findSome b i nodes ctx hf => exact ⟨hl, fun _ => id, by simp⟩
  | findNone b i nodes hf => exact ⟨hl, fun _ => id, by simp⟩
  | _ => exact ⟨trivial, by simp [Pc.submit?], by simp⟩

omit [DecidableEq τ] in
theorem mem_queue_update {p p' : Pool τ α κ} {i : Fin 64} {w : WorkerThread τ α κ}
    (hw : p'.workers = Function.update p.workers i w) {j : Fin 64} {task : ThreadPoolTask τ α κ}
    (hm : task ∈ (p'.workers j).queue) : task ∈ (p.workers j).queue ∨ j = i ∧ task ∈ w.queue := by
  rw [hw] at hm
  rcases eq_or_ne j i with rfl | hj
  · rw [Function.update_self] at hm
    exact .inr ⟨rfl, hm⟩
  · rw [Function.update_of_ne hj] at hm
    exact .inl hm

theorem threadStep_taken {p p' : Pool τ α κ} {t : τ} {o : Oracle} {pc pc' : Pc τ α κ}
    (h : ThreadStep p t o pc p' pc') : p'.hist.taken = p.hist.taken := by
  cases h with
  | cancelUpdate => split <;> rfl
  | cancelUpdateDangling => split <;> rfl
  | _ => rfl

theorem threadStep_queue_attach {p p' : Pool τ α κ} {t : τ} {o : Oracle} {pc pc' : Pc τ α κ}
    (h : ThreadStep p t o pc p' pc') {j : Fin 64} {task : ThreadPoolTask τ α κ} (htask : task ∈ (p'.workers j).queue) :
    task ∈ (p.workers j).queue ∨ ∃ b i nodes, pc = .attach b i nodes ∧ task ∈ nodes := by
  cases h with
  | attach b i nodes size hm hs =>
    rcases mem_queue_update (i := i) rfl htask with h | ⟨rfl, h⟩
    · exact .inl h
    rcases List.mem_append.1 h with h | h
    · exact .inl h
    · exact .inr ⟨b, j, nodes, rfl, h⟩
  | wakeSet r i hm => rcases mem_queue_update (i := i) rfl htask with h | ⟨rfl, h⟩ <;> exact .inl h
  | cancelQueue r x i hm =>
    rcases mem_queue_update (i := i) rfl htask with h | ⟨rfl, h⟩
    · exact .inl h
    · exact .inl (List.mem_of_mem_filter h)
  | cancelUpdate r x n c hd =>
    split at htask <;> exact .inl htask
  | cancelUpdateDangling r x n hd =>
    split at htask <;> exact .inl htask
  | _ => exact .inl htask

theorem threadStep_queue {p p' : Pool τ α κ} {t : τ} {o : Oracle} {pc pc' : Pc τ α κ}
    (h : ThreadStep p t o pc p' pc') (hl : pc.Local t) {j : Fin 64} {task : ThreadPoolTask τ α κ}
    (htask : task ∈ (p'.workers j).queue) :
    task ∈ (p.workers j).queue ∨ task.owner = t ∧ pc.accepted = false := by
  rcases threadStep_queue_attach h htask with hold | ⟨b, i, nodes, rfl, hmem⟩
  · exact .inl hold
  · exact .inr ⟨(hl.1.of_mem hmem).1, rfl⟩

/-- A worker queues nothing, and takes what it executes from its queue. -/
theorem workerStep_queue {p p' : Pool τ α κ} {i : Fin 64} {o : Oracle} (h : WorkerStep p i o p') :
    (p'.hist.taken = p.hist.taken ∨ ∃ task ∈ (p.workers i).queue, p'.hist.taken = p.hist.taken ++ [(i, task)]) ∧
      ∀ j, ∀ task ∈ (p'.workers j).queue, task ∈ (p.workers j).queue := by
  have hsame : ∀ {w : WorkerThread τ α κ}, p'.workers = Function.update p.workers i w →
      w.queue = (p.workers i).queue → ∀ j, ∀ task ∈ (p'.workers j).queue, task ∈ (p.workers j).queue :=
    fun hw hq j task htask => by
      rcases mem_queue_update hw htask with hm | ⟨rfl, hm⟩
      · exact hm
      · rwa [hq] at hm
  cases h with
  | take task rest hpc hr hpop =>
    refine ⟨.inr ⟨task, (mem_popFirst hpop).2 (.inl rfl), rfl⟩, fun j x hx => ?_⟩
    rcases mem_queue_update (i := i) rfl hx with h | ⟨rfl, h⟩
    · exact h
    · exact (mem_popFirst hpop).2 (.inr h)
  | _ => exact ⟨.inl rfl, hsame rfl rfl⟩

theorem threadStep_cancelled {p p' : Pool τ α κ} {t : τ} {o : Oracle} {pc pc' : Pc τ α κ}
    (h : ThreadStep p t o pc p' pc') : p'.hist.cancelled = p.hist.cancelled ∨
      ∃ i r, p'.hist.cancelled = p.hist.cancelled ++ [(i, r, p.queued i r)] ∧
        (p'.workers i).queue = (p.workers i).queue.filter fun task => !(task.requestId == r) := by
  cases h with
  | cancelQueue r x i hm => exact .inr ⟨i, r, rfl, by simp⟩
  | cancelUpdate => split <;> exact .inl rfl
  | cancelUpdateDangling => split <;> exact .inl rfl
  | _ => exact .inl rfl

theorem workerStep_cancelled {p p' : Pool τ α κ} {i : Fin 64} {o : Oracle} (h : WorkerStep p i o p') :
    p'.hist.cancelled = p.hist.cancelled := by
  cases h <;> rfl

end Pool

open Lts
namespace PoolSys
variable {τ α κ : Type} [DecidableEq τ]

omit [DecidableEq τ] in
theorem enter_local (p : Pool τ α κ) (o : Oracle) (c : Call α κ) (t : τ) :
    (enter p o c).Local t ∧ (enter p o c).accepted = false ∧ enter p o c ≠ .idle ∧
      ∀ b, (enter p o c).submit? = some b → c.submit? = some b := by
  cases c with
  | submitTask r arg cb =>
    simp only [enter]
    split
    · exact ⟨Made.nil, rfl, by simp, fun _ => id⟩
    · exact ⟨trivial, rfl, by simp, by simp [Pc.submit?]⟩
  | submitBatch b =>
    simp only [enter]
    split
    · exact ⟨trivial, rfl, by simp, by simp [Pc.submit?]⟩
    split
    · exact ⟨trivial, rfl, by simp, by simp [Pc.submit?]⟩
    rename_i b' hb
    have hbatch := (Batch.validate_eq_some hb).1
    split
    · exact ⟨⟨Made.nil, by simp [hbatch]⟩, rfl, by simp, fun _ h => hb.trans h⟩
    · exact ⟨trivial, rfl, by simp, by simp [Pc.submit?]⟩
  | wakeUp r => exact ⟨trivial, rfl, by simp [enter], by simp [enter, Pc.submit?]⟩
  | cancel r =>
    simp only [enter]
    split
    · exact ⟨trivial, rfl, by simp, by simp [Pc.submit?]⟩
    · exact ⟨trivial, rfl, by simp, by simp [Pc.submit?]⟩

/-- What a step of the system does to the call `t` and its lane. -/
theorem lane_step {s s' : PoolSys τ α κ} {a : Act τ α κ} (h : s.step a = some s')
    (hl : ∀ u, (s.threads u).Local u) (t : τ) :
    Lane.Step (fun task => task.requestId) (s.pool.lane t) (s'.pool.lane t) ∧
      (s'.threads t).accepted = (s.threads t).accepted ∨
    (s'.threads t).accepted = true ∧ ∃ b i nodes, s.threads t = .attach b i nodes ∧
      s'.pool.lane t = (s.pool.lane t).attach i nodes := by
  cases step_cases h with
  | call u c o hu =>
    refine .inl ⟨.refl, ?_⟩
    rw [setThread_threads]
    split
    · rename_i htu
      rw [htu, hu]
      exact (enter_local s.pool o c u).2.1
    · rfl
  | thread u o p pc hp =>
    rcases Pool.lane_threadStep hp (hl u) t with ⟨hs, hacc⟩ | ⟨rfl, hacc, hatt⟩
    · refine .inl ⟨hs, ?_⟩
      rw [setThread_threads]
      split
      · rename_i htu
        rw [htu]; exact hacc htu.symm
      · rfl
    · exact .inr ⟨by rwa [setThread_threads, if_pos rfl], hatt⟩
  | worker i o p hp => exact .inl ⟨Pool.lane_workerStep hp t, rfl⟩

theorem done_step {s s' : PoolSys τ α κ} {a : Act τ α κ} {t : τ} {ret : Ret}
    (ht : s.threads t = .done ret) (h : s.step a = some s') : s'.threads t = .done ret := by
  cases step_cases h with
  | call u c o hu =>
    rw [setThread_threads, if_neg, ht]
    rintro rfl
    rw [ht] at hu; cases hu
  | thread u o p pc hp =>
    rw [setThread_threads, if_neg]
    · exact ht
    rintro rfl
    rw [ht] at hp; cases hp
  | worker i o p hp => exact ht

theorem done_exec {s s' : PoolSys τ α κ} {as : List (Act τ α κ)} {t : τ} {ret : Ret}
    (ht : s.threads t = .done ret) (h : exec PoolSys.step s as = some s') : s'.threads t = .done ret :=
  exec_inv' (I := fun s => s.threads t = .done ret) (fun _ _ _ hs hst => done_step hs hst) ht h

/-- The tasks of the call `t` are nowhere before they are attached, and stay split afterwards. -/
structure Tracked (s : PoolSys τ α κ) (t : τ) : Prop where
  made : (s.threads t).Local t
  unused : (s.threads t).accepted = false → (s.pool.lane t).Unused
  split : (s.threads t).accepted = true → ∃ b w nodes pre suf, Made t b nodes ∧
    nodes.length = b.args.length ∧
    (s.pool.lane t).Split (fun task => task.requestId) w nodes pre suf

theorem tracked_start (t : τ) : Tracked (start : PoolSys τ α κ) t where
  made := trivial
  unused _ := ⟨rfl, fun _ => rfl, fun _ => rfl, rfl, rfl⟩
  split h := by cases h

theorem tracked_step {s s' : PoolSys τ α κ} {a : Act τ α κ} (hs : ∀ t, Tracked s t)
    (h : s.step a = some s') (t : τ) : Tracked s' t where
  made := by
    cases step_cases h with
    | call u c o hu =>
      rw [setThread_threads]
      split
      · exact (enter_local s.pool o c t).1
      · exact (hs t).made
    | thread u o p pc hp =>
      rw [setThread_threads]
      split
      · rename_i htu
        rw [htu]
        exact (Pool.local_threadStep hp (hs u).made).1
      · exact (hs t).made
    | worker i o p hp => exact (hs t).made
  unused ha := by
    rcases lane_step h (fun u => (hs u).made) t with ⟨hstep, hacc⟩ | ⟨hacc, -⟩
    · exact ((hs t).unused (hacc ▸ ha)).step hstep
    · rw [ha] at hacc; cases hacc
  split ha := by
    rcases lane_step h (fun u => (hs u).made) t with ⟨hstep, hacc⟩ | ⟨-, b, i, nodes, hpc, hatt⟩
    · obtain ⟨b, w, nodes, pre, suf, hm, hlen, hsplit⟩ := (hs t).split (hacc ▸ ha)
      have hkey : ∀ x ∈ nodes, ∀ y ∈ nodes, x.requestId = y.requestId := fun x hx y hy =>
        (hm.of_mem hx).2.trans (hm.of_mem hy).2.symm
      obtain ⟨pre', suf', hsplit'⟩ := hsplit.step hkey hstep
      exact ⟨b, w, nodes, pre', suf', hm, hlen, hsplit'⟩
    · have hmade := (hs t).made
      rw [hpc] at hmade
      have hun := (hs t).unused (by rw [hpc]; rfl)
      exact ⟨b, i, nodes, [], nodes, hmade.1, hmade.2, hatt ▸ hun.attach i nodes⟩

theorem accepted_step {s s' : PoolSys τ α κ} {a : Act τ α κ} (hs : ∀ t, Tracked s t) (h : s.step a = some s')
    {t : τ} (ht : (s.threads t).accepted = true) : (s'.threads t).accepted = true := by
  rcases lane_step h (fun u => (hs u).made) t with ⟨-, hacc⟩ | ⟨hacc, -⟩
  · exact hacc.trans ht
  · exact hacc

theorem tracked {s : PoolSys τ α κ} {as : List (Act τ α κ)} (h : exec PoolSys.step start as = some s)
    (t : τ) : Tracked s t :=
  exec_inv' (I := fun s => ∀ t, Tracked s t) (fun _ _ _ hs hst => tracked_step hs hst) tracked_start h t

/-- A queued task is of a call that has attached its tasks, and is on one queue. -/
theorem Tracked.queued {s : PoolSys τ α κ} {task : ThreadPoolTask τ α κ} (h : Tracked s task.owner) {i : Fin 64}
    (hm : task ∈ (s.pool.workers i).queue) : (s.threads task.owner).accepted = true ∧
      ∃ items pre suf, items.Nodup ∧
        (s.pool.lane task.owner).Split (fun task => task.requestId) i items pre suf ∧ task ∈ suf := by
  have hlane : task ∈ (s.pool.lane task.owner).queued i := List.mem_filter.2 ⟨hm, by simp⟩
  have hacc : (s.threads task.owner).accepted = true := by
    by_contra hne
    rw [(h.unused (by simpa using hne)).queued i] at hlane
    cases hlane
  obtain ⟨b, w, items, pre, suf, hmade, -, hsplit⟩ := h.split hacc
  obtain rfl : i = w := by
    by_contra hi
    rw [(hsplit.elsewhere i hi).1] at hlane
    cases hlane
  refine ⟨hacc, items, pre, suf, hmade.nodup, hsplit, ?_⟩
  rcases hsplit.rest with hq | ⟨hq, -⟩
  · rw [← hq]; exact hlane
  · rw [hq] at hlane; cases hlane

/-- The call `t` was made with the submission `b`. -/
structure MadeBy (t : τ) (b : Submit α κ) (s : PoolSys τ α κ) : Prop where
  called : s.threads t ≠ .idle
  submit : ∀ b', (s.threads t).submit? = some b' → b' = b
  attached : ∀ e ∈ (s.pool.lane t).attached, Made t b e.2 ∧ e.2.length = b.args.length

theorem MadeBy.step {s s' : PoolSys τ α κ} {a : Act τ α κ} {t : τ} {b : Submit α κ}
    (hb : MadeBy t b s) (hs : ∀ t, Tracked s t) (h : s.step a = some s') : MadeBy t b s' := by
  have hatt : ∀ e ∈ (s'.pool.lane t).attached, Made t b e.2 ∧ e.2.length = b.args.length := by
    rcases lane_step h (fun u => (hs u).made) t with ⟨hstep, -⟩ | ⟨-, b', i, nodes, hpc, hl⟩
    · rw [hstep.attached_eq]
      exact hb.attached
    · have hmade := (hs t).made
      obtain rfl : b' = b := hb.submit b' (by rw [hpc]; rfl)
      rw [hpc] at hmade
      intro e he
      rw [hl] at he
      rcases List.mem_append.1 he with he | he
      · exact hb.attached e he
      · obtain rfl := List.mem_singleton.1 he
        exact hmade
  cases step_cases h with
  | call u c o hu =>
    have htu : t ≠ u := fun htu => hb.called (htu ▸ hu)
    refine ⟨?_, ?_, hatt⟩ <;> rw [setThread_threads, if_neg htu]
    · exact hb.called
    · exact hb.submit
  | thread u o p pc hp =>
    obtain ⟨-, hsub, hidle⟩ := Pool.local_threadStep hp (hs u).made
    refine ⟨?_, ?_, hatt⟩ <;> rw [setThread_threads] <;> split
    · exact hidle
    · exact hb.called
    · rename_i htu
      subst htu
      exact fun b' hb' => hb.submit b' (hsub b' hb')
    · exact hb.submit
  | worker i o p hp => exact ⟨hb.called, hb.submit, hatt⟩

theorem madeBy_call {s s' : PoolSys τ α κ} {t : τ} {c : Call α κ} {o : Oracle} {b : Submit α κ}
    (ht : Tracked s t) (hc : c.submit? = some b) (h : s.step (.call t c o) = some s') : MadeBy t b s' := by
  cases step_cases h with
  | call u c o hu =>
    obtain ⟨-, -, hne, hsub⟩ := enter_local s.pool o c t
    have hun := ht.unused (by rw [hu]; rfl)
    refine ⟨?_, ?_, ?_⟩
    · rw [setThread_threads, if_pos rfl]
      exact hne
    · rw [setThread_threads, if_pos rfl]
      exact fun b' hb => Option.some.inj ((hsub b' hb).symm.trans hc)
    · rw [setThread_pool, hun.attached]
      simp

/-- The task array of the batch `b` of the call `t` is a prefix taken by one worker, executed in order with at most the
last one still running, and a suffix that is queued in order on that worker alone or was removed by one cancel of its id. -/
def IsSplit (t : τ) (b : Batch α κ) (s : PoolSys τ α κ) : Prop :=
  ∃ w nodes pre suf, nodes.map (fun task => (task.requestId, task.taskArg.userArg)) = b.tasks ∧
    (s.pool.lane t).Split (fun task => task.requestId) w nodes pre suf ∧ pre.Disjoint suf

theorem isSplit_of_exec {as as' : List (Act τ α κ)} {s₀ s₁ s : PoolSys τ α κ} {t : τ} {b : Batch α κ}
    {o : Oracle} (h₀ : exec PoolSys.step start as = some s₀)
    (hcall : s₀.step (.call t (.submitBatch b) o) = some s₁) (h : exec PoolSys.step s₁ as' = some s)
    (hacc : (s.threads t).accepted = true) : IsSplit t b s := by
  have hs₁ : ∀ u, Tracked s₁ u := tracked_step (tracked h₀) hcall
  have hs := exec_inv' (I := fun s => ∀ u, Tracked s u) (fun _ _ _ hs hst => tracked_step hs hst) hs₁ h
  have hidle : s₀.threads t = .idle ∧ s₁ = s₀.setThread t (enter s₀.pool o (.submitBatch b)) := by
    cases step_cases hcall with
    | call u c o hu => exact ⟨hu, rfl⟩
  cases hv : b.validate with
  | none =>
    have hnull : s₁.threads t = .done .null := by
      rw [hidle.2, setThread_threads, if_pos rfl]
      simp only [enter, hv]
      split <;> rfl
    rw [done_exec hnull h] at hacc
    cases hacc
  | some b' =>
    have hby := madeBy_call (tracked h₀ t) (show (Call.submitBatch b).submit? = some b' from hv) hcall
    have hby' := (exec_inv' (I := fun s => MadeBy t b' s ∧ ∀ u, Tracked s u)
      (fun _ _ _ hs hst => ⟨hs.1.step hs.2 hst, tracked_step hs.2 hst⟩) ⟨hby, hs₁⟩ h).1
    obtain ⟨-, w, nodes, pre, suf, -, -, hsplit⟩ := (hs t).split hacc
    obtain ⟨hm, hlen⟩ := hby'.attached (w, nodes) (by simp [hsplit.attached])
    refine ⟨w, nodes, pre, suf, ?_, hsplit, ?_⟩
    · rw [(Batch.validate_eq_some hv).2, ← hm.args_eq hlen, List.map_map]
      exact List.map_congr_left fun task htask => by simp [(hm.of_mem htask).2]
    · exact List.disjoint_of_nodup_append (hsplit.append ▸ hm.nodup)

/-- A batch that `thread_pool_submit_batch_tasks` has attached stays split at every moment of a run that makes no write
to a freed context. -/
theorem submitBatch_split {xs xs' : List (Act τ α κ × Tenant τ)} {s₀ s₁ s : PoolSys τ α κ} {t : τ} {b : Batch α κ}
    {o : Oracle} (h₀ : exec memStep start xs = some s₀) (hn₀ : Along memStep NoStray start xs)
    (hcall : s₀.step (.call t (.submitBatch b) o) = some s₁) (h : exec memStep s₁ xs' = some s)
    (hn : Along memStep NoStray s₁ xs') (hacc : (s.threads t).accepted = true) : IsSplit t b s :=
  isSplit_of_exec (exec_memStep h₀ hn₀) hcall (exec_memStep h hn) hacc

/-- Call 0 submits its batch, call 1 wakes the request, and worker 0 has begun the first task. -/
def halfRun : List (Act (Fin 2) Unit Unit × Tenant (Fin 2)) :=
  quiet (List.replicate 6 (.thread 0 {}) ++ .call 1 (.wakeUp 7) {} :: List.replicate 3 (.thread 1 {}) ++
    [.worker 0 {}])

/-- Two tasks of request 7. -/
def twoTasks : Batch Unit Unit := ⟨[(7, ()), (7, ())], none, none, by decide⟩

/-- Call 0 has been made. -/
def halfStart : PoolSys (Fin 2) Unit Unit :=
  start.setThread 0 (enter start.pool {} (.submitBatch twoTasks))

theorem halfRun_split : IsSplit 0 twoTasks (last memStep halfStart halfRun (by decide +kernel)) :=
  have hcall : start.step (.call 0 (.submitBatch twoTasks) {}) = some halfStart := rfl
  submitBatch_split exec_nil trivial hcall (exec_last _) (by decide +kernel) (by decide +kernel)

/-! ### A task whose request id is overwritten -/

/-- Call 0 submits a task of request 7, and so does call 1, on worker 1, up to the point where it has found the context.
Call 2 cancels request 7: it removes the task of call 0 and frees the context. -/
def struckBefore : List (Act (Fin 5) Unit Unit × Tenant (Fin 5)) :=
  quiet (.call 0 (.submitTask 7 () none) {} :: List.replicate 5 (.thread 0 {}) ++
    .call 1 (.submitTask 7 () none) {} :: List.replicate 5 (.thread 1 {}) ++
    .call 2 (.cancel 7) {} :: List.replicate 4 (.thread 2 {}))

def struckFreed : PoolSys (Fin 5) Unit Unit := last memStep start struckBefore (by decide +kernel)

/-- Two tasks of request 9. -/
def nineTwice : Batch Unit Unit := ⟨[(9, ()), (9, ())], none, none, by decide⟩

def struckCalled : PoolSys (Fin 5) Unit Unit :=
  struckFreed.setThread 3 (enter struckFreed.pool {} (.submitBatch nineTwice))

/-- Call 3 submits the batch, and its first task gets the block of the freed context. Call 1 raises `pending_count` there,
call 4 wakes request 9 and worker 0 looks for its task. -/
def struckRun : List (Act (Fin 5) Unit Unit × Tenant (Fin 5)) :=
  quiet (List.replicate 6 (.thread 3 {})) ++ (.thread 1 {}, .task 3 0) ::
    quiet (.call 4 (.wakeUp 9) {} :: List.replicate 3 (.thread 4 {}) ++ [.worker 0 {}])

def struckEnd : PoolSys (Fin 5) Unit Unit := last memStep struckCalled struckRun (by decide +kernel)

/-- The second task of the batch is taken while the first one is queued under the request id 10. -/
theorem struckEnd_notSplit : exec memStep start struckBefore = some struckFreed ∧
    struckFreed.step (.call 3 (.submitBatch nineTwice) {}) = some struckCalled ∧
    exec memStep struckCalled struckRun = some struckEnd ∧ (struckEnd.threads 3).accepted = true ∧
    struckEnd.pool.hist.taken.map (fun e => (e.1, e.2.owner, e.2.index)) = [(0, 3, 1)] ∧
    (struckEnd.pool.workers 0).queue.map (fun task => (task.owner, task.index, task.requestId)) = [(3, 0, 10)] ∧
    ¬IsSplit 3 nineTwice struckEnd := by
  have hfreed : exec memStep start struckBefore = some struckFreed := exec_last _
  have hrun : exec memStep struckCalled struckRun = some struckEnd := exec_last _
  refine ⟨hfreed, rfl, hrun, by decide +kernel, by decide +kernel, by decide +kernel, ?_⟩
  rintro ⟨w, nodes, pre, suf, -, hsplit, -⟩
  have hatt : ∀ e ∈ (struckEnd.pool.lane 3).attached, e.2.map (·.index) = [0, 1] := by decide +kernel
  have htaken : (struckEnd.pool.lane 3).taken.map (fun e => e.2.index) = [1] := by decide +kernel
  -- the prefix would begin with the second task, the array begins with the first one
  have hnodes : nodes.map (·.index) = [0, 1] := hatt (w, nodes) (by rw [hsplit.attached]; exact List.mem_singleton_self _)
  have hpre : pre.map (·.index) = [1] := by
    rw [hsplit.taken, List.map_map] at htaken
    exact htaken
  rw [hsplit.append, List.map_append, hpre] at hnodes
  cases hnodes

end PoolSys
end OsTransport
