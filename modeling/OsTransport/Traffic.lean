import OsTransport.Lib.Service
import OsTransport.BatchCallback

/-!
# The tasks of all calls on their way through the pool

Every queue gives each request id a `Service`: whatever the calls and the workers do, the tasks of an id
that were attached to a worker were taken by it in the order of their attachment, were cancelled, or still
wait (`tasks_in_order`). A task is attached once, so at every moment it is in exactly one of these places,
and on no other worker (`task_place`).
-/

namespace OsTransport
namespace Pool
variable {τ α κ : Type} (p : Pool τ α κ) (i : Fin 64) (r : UInt32)

/-- The tasks of `r` that were attached to worker `i`, in order. -/
def attachedTo : List (ThreadPoolTask τ α κ) :=
  p.hist.attached.flatMap fun e => if e.2.1 = i then e.2.2.filter fun task => task.requestId == r else []

def takenBy : List (ThreadPoolTask τ α κ) :=
  (p.hist.taken.filter fun e => e.1 == i && e.2.requestId == r).map Prod.snd

def cancelledOn : List (ThreadPoolTask τ α κ) :=
  p.hist.cancelled.flatMap fun e => if e.1 = i ∧ e.2.1 = r then e.2.2 else []

/-- What has become of the tasks of `r` on worker `i`. -/
def Serves : Prop := Service (p.attachedTo i r) (p.takenBy i r) (p.cancelledOn i r) (p.queued i r)

variable {p i r} {p' : Pool τ α κ}

theorem Serves.congr (h : p.Serves i r) (hh : p'.hist.attached = p.hist.attached ∧ p'.hist.taken = p.hist.taken ∧
    p'.hist.cancelled = p.hist.cancelled) (hq : p'.queued i r = p.queued i r) : p'.Serves i r := by
  simp only [Serves, attachedTo, takenBy, cancelledOn, hh, hq]
  exact h

theorem queued_update {j : Fin 64} {w : WorkerThread τ α κ} (hw : p'.workers = Function.update p.workers j w)
    (i : Fin 64) (r : UInt32) :
    p'.queued i r = if i = j then w.queue.filter (fun task => task.requestId == r) else p.queued i r := by
  simp only [queued, hw, Function.update_apply]
  split <;> rfl

theorem queued_same {j : Fin 64} {w : WorkerThread τ α κ} (hw : p'.workers = Function.update p.workers j w)
    (hq : w.queue = (p.workers j).queue) (i : Fin 64) (r : UInt32) : p'.queued i r = p.queued i r := by
  rw [queued_update hw]
  split
  · rename_i hi
    rw [hi, hq]
    rfl
  · rfl

theorem attachedTo_snoc {t : τ} {j : Fin 64} {nodes : List (ThreadPoolTask τ α κ)}
    (hh : p'.hist.attached = p.hist.attached ++ [(t, j, nodes)]) (i : Fin 64) (r : UInt32) :
    p'.attachedTo i r = p.attachedTo i r ++ if j = i then nodes.filter (fun task => task.requestId == r) else [] := by
  simp [attachedTo, hh]

theorem takenBy_snoc {j : Fin 64} {task : ThreadPoolTask τ α κ} (hh : p'.hist.taken = p.hist.taken ++ [(j, task)])
    (i : Fin 64) (r : UInt32) :
    p'.takenBy i r = p.takenBy i r ++ if j = i ∧ task.requestId = r then [task] else [] := by
  by_cases hmine : j = i ∧ task.requestId = r
  · simp [takenBy, hh, List.filter_append, hmine]
  · simp [takenBy, hh, List.filter_append, hmine]

theorem cancelledOn_snoc {j : Fin 64} {r' : UInt32} {l : List (ThreadPoolTask τ α κ)}
    (hh : p'.hist.cancelled = p.hist.cancelled ++ [(j, r', l)]) (i : Fin 64) (r : UInt32) :
    p'.cancelledOn i r = p.cancelledOn i r ++ if j = i ∧ r' = r then l else [] := by
  simp [cancelledOn, hh]

theorem attachedTo_congr (hh : p'.hist.attached = p.hist.attached) : p'.attachedTo i r = p.attachedTo i r := by
  simp only [attachedTo, hh]

theorem takenBy_congr (hh : p'.hist.taken = p.hist.taken) : p'.takenBy i r = p.takenBy i r := by
  simp only [takenBy, hh]

theorem cancelledOn_congr (hh : p'.hist.cancelled = p.hist.cancelled) : p'.cancelledOn i r = p.cancelledOn i r := by
  simp only [cancelledOn, hh]

theorem Serves.take (h : p.Serves i r) {j : Fin 64} {w : WorkerThread τ α κ} {task : ThreadPoolTask τ α κ}
    {rest : List (ThreadPoolTask τ α κ)} (hw : p'.workers = Function.update p.workers j w)
    (hpop : popFirst (fun t => t.requestId == task.requestId) (p.workers j).queue = some (task, rest))
    (hq : w.queue = rest) (hA : p'.hist.attached = p.hist.attached)
    (hT : p'.hist.taken = p.hist.taken ++ [(j, task)]) (hC : p'.hist.cancelled = p.hist.cancelled) : p'.Serves i r := by
  rw [Serves, attachedTo_congr hA, takenBy_snoc hT, cancelledOn_congr hC, queued_update hw, hq]
  by_cases hmine : j = i ∧ task.requestId = r
  · -- the head of the tasks of `r` is served
    obtain ⟨rfl, rfl⟩ := hmine
    have hhead : p.queued j task.requestId = task :: rest.filter fun x => x.requestId == task.requestId :=
      filter_popFirst_self hpop
    rw [if_pos ⟨rfl, rfl⟩, if_pos rfl]
    exact Service.serve (hhead ▸ h)
  · have hrest : (if i = j then rest.filter (fun x => x.requestId == r) else p.queued i r) = p.queued i r := by
      split
      · rename_i hij
        subst hij
        exact filter_popFirst_of_not hpop (beq_eq_false_iff_ne.2 fun hr => hmine ⟨rfl, hr⟩)
      · rfl
    rw [if_neg hmine, List.append_nil, hrest]
    exact h

theorem Serves.attach (h : p.Serves i r) {t : τ} {j : Fin 64} {w : WorkerThread τ α κ}
    {nodes : List (ThreadPoolTask τ α κ)} (hw : p'.workers = Function.update p.workers j w)
    (hq : w.queue = (p.workers j).queue ++ nodes) (hA : p'.hist.attached = p.hist.attached ++ [(t, j, nodes)])
    (hT : p'.hist.taken = p.hist.taken) (hC : p'.hist.cancelled = p.hist.cancelled) : p'.Serves i r := by
  rw [Serves, attachedTo_snoc hA, takenBy_congr hT, cancelledOn_congr hC, queued_update hw, hq]
  rcases eq_or_ne i j with rfl | hij
  · rw [if_pos rfl, if_pos rfl, List.filter_append]
    exact Service.arrive h _
  · rw [if_neg hij.symm, if_neg hij, List.append_nil]
    exact h

theorem Serves.cancel (h : p.Serves i r) {j : Fin 64} {r' : UInt32} {w : WorkerThread τ α κ}
    (hw : p'.workers = Function.update p.workers j w)
    (hq : w.queue = (p.workers j).queue.filter fun task => !(task.requestId == r'))
    (hA : p'.hist.attached = p.hist.attached) (hT : p'.hist.taken = p.hist.taken)
    (hC : p'.hist.cancelled = p.hist.cancelled ++ [(j, r', p.queued j r')]) : p'.Serves i r := by
  rw [Serves, attachedTo_congr hA, takenBy_congr hT, cancelledOn_snoc hC, queued_update hw, hq]
  by_cases hmine : j = i ∧ r' = r
  · obtain ⟨rfl, rfl⟩ := hmine
    have hnone : ((p.workers j).queue.filter fun task => !(task.requestId == r')).filter
        (fun task => task.requestId == r') = [] := by simp [List.filter_filter]
    rw [if_pos ⟨rfl, rfl⟩, if_pos rfl, hnone]
    exact Service.drop h
  · have hrest : (if i = j then ((p.workers j).queue.filter fun task => !(task.requestId == r')).filter
        (fun task => task.requestId == r) else p.queued i r) = p.queued i r := by
      split
      · rename_i hij
        subst hij
        have hne : r' ≠ r := fun hr => hmine ⟨rfl, hr⟩
        rw [List.filter_filter, queued]
        refine List.filter_congr fun task _ => ?_
        by_cases ht : task.requestId = r <;> simp [ht, hne.symm]
      · rfl
    rw [if_neg hmine, List.append_nil, hrest]
    exact h

variable [DecidableEq τ]

theorem Serves.workerStep (h : p.Serves i r) {j : Fin 64} {o : Oracle} (hs : WorkerStep p j o p') : p'.Serves i r := by
  cases hs with
  | take task rest hpc hr hpop =>
    have hid : task.requestId = (p.workers j).pendingReq := by
      have := popFirst_sat hpop
      exact beq_iff_eq.1 this
    rw [← hid] at hpop
    exact h.take (j := j) rfl hpop rfl rfl rfl rfl
  | _ => exact h.congr ⟨rfl, rfl, rfl⟩ (queued_same (j := j) (by rfl) (by rfl) i r)

theorem Serves.threadStep (h : p.Serves i r) {t : τ} {o : Oracle} {pc pc' : Pc τ α κ}
    (hs : ThreadStep p t o pc p' pc') : p'.Serves i r := by
  cases hs with
  | attach b j nodes size hm hsize => exact h.attach (j := j) rfl rfl rfl rfl rfl
  | cancelQueue r' x j hm => exact h.cancel (j := j) (by rfl) (by rfl) rfl rfl rfl
  | wakeSet r' j hm => exact h.congr ⟨rfl, rfl, rfl⟩ (queued_same (j := j) (by rfl) (by rfl) i r)
  | cancelUpdate => refine h.congr ⟨?_, ?_, ?_⟩ ?_ <;> split <;> rfl
  | cancelUpdateDangling => refine h.congr ⟨?_, ?_, ?_⟩ ?_ <;> split <;> rfl
  | _ => exact h.congr ⟨rfl, rfl, rfl⟩ rfl

end Pool

open Lts
namespace PoolSys
variable {τ α κ : Type} [DecidableEq τ] {s s' : PoolSys τ α κ}

theorem serves_step {a : Act τ α κ} {i : Fin 64} {r : UInt32} (h : s.pool.Serves i r) (hs : s.step a = some s') :
    s'.pool.Serves i r := by
  cases step_cases hs with
  | call t c o ht => exact h
  | thread t o p pc hp => exact h.threadStep hp
  | worker j o p hp => exact h.workerStep hp

theorem serves {as : List (Act τ α κ)} (h : exec PoolSys.step start as = some s) (i : Fin 64) (r : UInt32) :
    s.pool.Serves i r :=
  exec_inv' (I := fun s => s.pool.Serves i r) (fun _ _ _ hi hs => serves_step hi hs) Service.nil h

/-! ### A task is attached once -/

theorem Tracked.attached {t : τ} (h : Tracked s t) : (s.pool.lane t).attached = [] ∨
    ∃ w b nodes, (s.pool.lane t).attached = [(w, nodes)] ∧ Made t b nodes := by
  cases hacc : (s.threads t).accepted with
  | false => exact .inl (h.unused hacc).attached
  | true =>
    obtain ⟨b, w, nodes, pre, suf, hm, -, hsplit⟩ := h.split hacc
    exact .inr ⟨w, b, nodes, hsplit.attached, hm⟩

theorem made_of_attached (ht : ∀ t, Tracked s t) {t : τ} {w : Fin 64} {nodes : List (ThreadPoolTask τ α κ)}
    (h : (t, w, nodes) ∈ s.pool.hist.attached) : ∃ b, Made t b nodes := by
  have h := mem_lane_attached.2 h
  rcases (ht t).attached with hnil | ⟨w', b, nodes', hone, hm⟩
  · rw [hnil] at h
    cases h
  · rw [hone] at h
    cases List.mem_singleton.1 h
    exact ⟨b, hm⟩

theorem attached_nodup (ht : ∀ t, Tracked s t) : (s.pool.hist.attached.flatMap fun e => e.2.2).Nodup := by
  refine List.nodup_of_classes (fun task => task.owner) fun t => ?_
  -- the tasks of one call are those of its one chain
  have hclass : (s.pool.hist.attached.flatMap fun e => e.2.2).filter (fun task => task.owner == t) =
      (s.pool.lane t).attached.flatMap Prod.snd := by
    have hall : ∀ l : List (τ × Fin 64 × List (ThreadPoolTask τ α κ)), (∀ e ∈ l, ∃ b, Made e.1 b e.2.2) →
        (l.flatMap fun e => e.2.2).filter (fun task => task.owner == t) =
          ((l.filter fun e => e.1 == t).map Prod.snd).flatMap Prod.snd := by
      intro l hl
      induction l with
      | nil => rfl
      | cons e l ih =>
        obtain ⟨b, hm⟩ := hl e (List.mem_cons_self ..)
        have hrest := ih fun e he => hl e (List.mem_cons_of_mem _ he)
        rw [List.flatMap_cons, List.filter_append, hrest, List.filter_cons]
        split
        · rename_i hu
          have hu : e.1 = t := by simpa using hu
          have hself : e.2.2.filter (fun task => task.owner == t) = e.2.2 :=
            List.filter_eq_self.2 fun task htask => by simpa [hu] using (hm.of_mem htask).1
          rw [hself]
          rfl
        · rename_i hu
          have hu : e.1 ≠ t := by simpa using hu
          have hnone : e.2.2.filter (fun task => task.owner == t) = [] :=
            List.filter_eq_nil_iff.2 fun task htask => by simpa [(hm.of_mem htask).1] using hu
          rw [hnone, List.nil_append]
    exact hall _ fun e he => made_of_attached ht he
  rw [hclass]
  rcases (ht t).attached with hnil | ⟨w, b, nodes, hone, hm⟩
  · rw [hnil]
    exact List.nodup_nil
  · rw [hone]
    simpa using hm.nodup

theorem attachedTo_nodup (ht : ∀ t, Tracked s t) (i : Fin 64) (r : UInt32) : (s.pool.attachedTo i r).Nodup := by
  refine (attached_nodup ht).sublist (List.Sublist.flatMap_of_forall _ fun e => ?_)
  split
  · exact List.filter_sublist
  · exact List.nil_sublist _

/-- At every moment, for each worker and id: the tasks taken and after them the ones still queued are in the order
in which they were attached, whichever calls they came from; every attached task was taken, was cancelled or is
queued. -/
theorem tasks_in_order {xs : List (Act τ α κ × Tenant τ)} (h : exec memStep start xs = some s)
    (hn : Along memStep NoStray start xs) (i : Fin 64) (r : UInt32) :
    (s.pool.takenBy i r ++ s.pool.queued i r).Sublist (s.pool.attachedTo i r) ∧
      (s.pool.attachedTo i r).Perm (s.pool.takenBy i r ++ s.pool.cancelledOn i r ++ s.pool.queued i r) :=
  have hserves := serves (exec_memStep h hn) i r
  ⟨hserves.order, hserves.perm⟩

omit [DecidableEq τ] in
theorem mem_attachedTo {i : Fin 64} {r : UInt32} {task : ThreadPoolTask τ α κ} : task ∈ s.pool.attachedTo i r ↔
    ∃ t nodes, (t, i, nodes) ∈ s.pool.hist.attached ∧ task ∈ nodes ∧ task.requestId = r := by
  simp only [Pool.attachedTo, List.mem_flatMap, Prod.exists]
  constructor
  · rintro ⟨t, w, nodes, he, hm⟩
    split at hm
    · rename_i hw
      cases hw
      obtain ⟨hm, hid⟩ := List.mem_filter.1 hm
      exact ⟨t, nodes, he, hm, by simpa using hid⟩
    · cases hm
  · rintro ⟨t, nodes, he, hm, hid⟩
    exact ⟨t, i, nodes, he, by simp [hm, hid]⟩

/-- At every moment each attached task is in one place: it was taken once by the worker it was attached to, or was
cancelled once on it, or is in its queue once, and it is with no other worker. -/
theorem task_place {xs : List (Act τ α κ × Tenant τ)} (h : exec memStep start xs = some s)
    (hn : Along memStep NoStray start xs) {t : τ} {i : Fin 64} {nodes : List (ThreadPoolTask τ α κ)} {task : ThreadPoolTask τ α κ} (he : (t, i, nodes) ∈ s.pool.hist.attached)
    (hm : task ∈ nodes) :
    (task ∈ s.pool.takenBy i task.requestId ++ s.pool.cancelledOn i task.requestId ++ s.pool.queued i task.requestId ∧
      (s.pool.takenBy i task.requestId ++ s.pool.cancelledOn i task.requestId ++
        s.pool.queued i task.requestId).Nodup) ∧
      ∀ j, j ≠ i → task ∉ s.pool.takenBy j task.requestId ++ s.pool.cancelledOn j task.requestId ++
        s.pool.queued j task.requestId := by
  have h := exec_memStep h hn
  have ht := tracked h
  have hperm := fun j => (serves h j task.requestId).perm
  refine ⟨⟨(hperm i).mem_iff.1 (mem_attachedTo.2 ⟨t, nodes, he, hm, rfl⟩), (hperm i).nodup_iff.1 (attachedTo_nodup ht _ _)⟩, ?_⟩
  intro j hj hmem
  obtain ⟨u, nodes', he', hm', -⟩ := mem_attachedTo.1 ((hperm j).mem_iff.2 hmem)
  obtain ⟨b, hb⟩ := made_of_attached ht he
  obtain ⟨b', hb'⟩ := made_of_attached ht he'
  obtain rfl : t = u := (hb.of_mem hm).1.symm.trans (hb'.of_mem hm').1
  exact hj ((ht t).attached_unique he' he).1

/-! ### Two calls under one id -/

/-- Calls 0 and 1 submit two tasks each under id 7, call 2 wakes the first worker, which takes a task; call 3
cancels the id. -/
def twoCalls : List (Act (Fin 4) Unit Unit) :=
  .call 0 (.submitBatch twoTasks) {} :: List.replicate 6 (.thread 0 {}) ++
    (.call 2 (.wakeUp 7) {} :: List.replicate 3 (.thread 2 {})) ++ List.replicate 8 (.worker 0 {}) ++
    (.call 1 (.submitBatch twoTasks) {} :: List.replicate 7 (.thread 1 {})) ++
    (.call 3 (.cancel 7) {} :: List.replicate 3 (.thread 3 {}))

def twoCallsEnd : PoolSys (Fin 4) Unit Unit := last PoolSys.step start twoCalls (by decide +kernel)

theorem twoCallsEnd_run : exec memStep start (quiet twoCalls) = some twoCallsEnd :=
  (exec_quiet (by decide +kernel)).2 (exec_last _)

theorem twoCallsEnd_in_order :
    (twoCallsEnd.pool.takenBy 0 7 ++ twoCallsEnd.pool.queued 0 7).Sublist (twoCallsEnd.pool.attachedTo 0 7) ∧
      (twoCallsEnd.pool.attachedTo 0 7).Perm
        (twoCallsEnd.pool.takenBy 0 7 ++ twoCallsEnd.pool.cancelledOn 0 7 ++ twoCallsEnd.pool.queued 0 7) :=
  tasks_in_order twoCallsEnd_run (by decide +kernel) 0 7

/-- The tasks of call 0. -/
def twoMade : List (ThreadPoolTask (Fin 4) Unit Unit) :=
  [⟨1, 7, ⟨(), none, 1, 7, true⟩, 0, 0⟩, ⟨2, 7, ⟨(), none, 2, 7, true⟩, 0, 1⟩]

theorem twoCallsEnd_place :
    (twoMade[0] ∈ twoCallsEnd.pool.takenBy 0 7 ++ twoCallsEnd.pool.cancelledOn 0 7 ++ twoCallsEnd.pool.queued 0 7 ∧
      (twoCallsEnd.pool.takenBy 0 7 ++ twoCallsEnd.pool.cancelledOn 0 7 ++ twoCallsEnd.pool.queued 0 7).Nodup) ∧
      ∀ j, j ≠ 0 → twoMade[0] ∉ twoCallsEnd.pool.takenBy j 7 ++ twoCallsEnd.pool.cancelledOn j 7 ++
        twoCallsEnd.pool.queued j 7 :=
  have hm : twoMade[0] ∈ twoMade := List.getElem_mem _
  have he : (0, 0, twoMade) ∈ twoCallsEnd.pool.hist.attached := by decide +kernel
  task_place twoCallsEnd_run (by decide +kernel) he hm

end PoolSys
end OsTransport
