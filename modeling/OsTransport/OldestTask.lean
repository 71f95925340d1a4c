import OsTransport.Submission

/-!
# One wake-up of a waiting worker

A wake-up of a request whose context is bound to a waiting worker has the worker execute the oldest queued
task of the request, and nothing else, unless the id is 0: stored in `pending_req` it says that there is
nothing to do (`wakesOldest_iff`).
-/

namespace OsTransport
open Lts

/-- A bound on the sections a worker runs before it waits again. -/
def WorkerPc.toGo {τ α κ : Type} : WorkerPc τ α κ → Nat
  | .func _ => 7
  | .complete _ => 6
  | .find _ => 5
  | .dec .. => 4
  | .batch .. => 3
  | .remove _ => 2
  | .finish _ => 1
  | .wait | .exited => 0

namespace Pool
variable {τ α κ : Type} [DecidableEq τ] {p₀ p p' : Pool τ α κ} {w : Fin 64} {task : ThreadPoolTask τ α κ}
  {rest : List (ThreadPoolTask τ α κ)}

/-- How far worker `w` has got with `task`, of the tasks that had returned before. -/
def Stage (task : ThreadPoolTask τ α κ) (before returned : List (ThreadPoolTask τ α κ)) : WorkerPc τ α κ → Prop
  | .func x => x = task ∧ returned = before
  | .complete x | .find x | .dec x _ | .batch x _ | .remove x | .finish x => x = task ∧ returned = before ++ [task]
  | .wait => returned = before ++ [task]
  | .exited => False

/-- Worker `w` of the pool `p₀` took `task` and left `rest`; it executes the task, or waits again. -/
structure Turn (p₀ : Pool τ α κ) (w : Fin 64) (task : ThreadPoolTask τ α κ) (rest : List (ThreadPoolTask τ α κ))
    (p : Pool τ α κ) : Prop where
  queue : (p.workers w).queue = rest
  others : ∀ j ≠ w, (p.workers j).queue = (p₀.workers j).queue
  slot : (p.workers w).pendingReq = 0
  taken : p.hist.taken = p₀.hist.taken ++ [(w, task)]
  stage : Stage task p₀.hist.returned p.hist.returned (p.workers w).pc
  alive : p.isDestroying = false

theorem Turn.take {r : UInt32} {o : Oracle} (hpc : (p.workers w).pc = .wait) (hr : (p.workers w).pendingReq = r)
    (hne : r ≠ 0) (hpop : popFirst (fun t => t.requestId == r) (p.workers w).queue = some (task, rest))
    (ha : p.isDestroying = false) (hs : WorkerStep p w o p') : Turn p w task rest p' := by
  subst hr
  cases hs with
  | park st pc hpc' hq =>
    rcases hq with hq | hq
    · exact absurd hq hne
    · rw [queued, ← popFirst_eq_none, hpop] at hq
      cases hq
  | take task' rest' hpc' hr' hpop' =>
    rw [hpop] at hpop'
    cases hpop'
    refine ⟨by simp, fun j hj => ?_, by simp, rfl, by simp [Stage], ha⟩
    rw [show _ = p.workers j from setWorker_workers_ne _ hj _]
  | _ => simp_all

theorem Turn.step {o : Oracle} (h : Turn p₀ w task rest p) (hs : WorkerStep p w o p') : Turn p₀ w task rest p' := by
  obtain ⟨hq, hother, hslot, htaken, hstage, ha⟩ := h
  have hothers : ∀ j ≠ w, (p'.workers j).queue = (p₀.workers j).queue := fun j hj => by
    rw [workers_of_ne hs hj]
    exact hother j hj
  cases hs with
  | park st pc hpc _ hpark =>
    obtain ⟨rfl, -⟩ := hpark.resolve_right fun hd => by rw [ha] at hd; cases hd.2
    rw [hpc] at hstage
    exact ⟨by simpa using hq, hothers, by simp, htaken, by simpa [Stage] using hstage, ha⟩
  | take task' rest' hpc hr hpop => exact absurd hslot hr
  | func task' hpc =>
    rw [hpc] at hstage
    obtain ⟨rfl, hret⟩ := hstage
    exact ⟨by simpa using hq, hothers, by simpa using hslot, htaken, by simp [Stage, hret], ha⟩
  | complete task' cbs hpc =>
    rw [hpc] at hstage
    exact ⟨by simpa using hq, hothers, by simpa using hslot, htaken, by simpa [Stage] using hstage, ha⟩
  | findSome task' ctx hpc hf =>
    rw [hpc] at hstage
    exact ⟨by simpa using hq, hothers, by simpa using hslot, htaken, by rw [setPc_workers_self]; exact hstage, ha⟩
  | findNone task' hpc hf =>
    rw [hpc] at hstage
    exact ⟨by simpa using hq, hothers, by simpa using hslot, htaken, by rw [setPc_workers_self]; exact hstage, ha⟩
  | dec task' ctx c hpc hd =>
    rw [hpc] at hstage
    refine ⟨by simpa using hq, hothers, by simpa using hslot, htaken, ?_, ha⟩
    rw [setPc_workers_self]
    split <;> exact hstage
  | decDangling task' ctx hpc hd =>
    rw [hpc] at hstage
    refine ⟨by simpa using hq, hothers, by simpa using hslot, htaken, ?_, ha⟩
    rw [setPc_workers_self]
    split <;> exact hstage
  | batch task' cb cbs hpc =>
    rw [hpc] at hstage
    exact ⟨by simpa using hq, hothers, by simpa using hslot, htaken, by simpa [Stage] using hstage, ha⟩
  | remove task' hpc =>
    rw [hpc] at hstage
    exact ⟨by simpa using hq, hothers, by simpa using hslot, htaken, by rw [setPc_workers_self]; exact hstage, ha⟩
  | finish task' st pc hpc hpark =>
    obtain ⟨rfl, -⟩ := hpark.resolve_right fun hd => by rw [ha] at hd; cases hd.2
    rw [hpc] at hstage
    exact ⟨by simpa using hq, hothers, by simpa using hslot, htaken, by simpa [Stage] using hstage.2, ha⟩

theorem Turn.progress (h : Turn p₀ w task rest p) (o : Oracle) (hpc : (p.workers w).pc ≠ .wait) :
    ∃ p', p.workerStep w o = some p' ∧ (p'.workers w).pc.toGo < (p.workers w).pc.toGo := by
  have hstage := h.stage
  unfold workerStep
  split
  case h_1 hw => exact absurd hw hpc
  case h_2 hw => exact ⟨_, rfl, by simp [hw, WorkerPc.toGo]⟩
  case h_3 hw => exact ⟨_, rfl, by simp [hw, WorkerPc.toGo]⟩
  case h_4 hw => split <;> exact ⟨_, rfl, by simp [hw, WorkerPc.toGo]⟩
  case h_5 hw =>
    simp only
    split <;> split <;> exact ⟨_, rfl, by simp [hw, WorkerPc.toGo]⟩
  case h_6 hw => exact ⟨_, rfl, by simp [hw, WorkerPc.toGo]⟩
  case h_7 hw => exact ⟨_, rfl, by simp [hw, WorkerPc.toGo]⟩
  case h_8 hw => exact ⟨_, rfl, by simp [hw, WorkerPc.toGo, park, h.alive]⟩
  case h_9 hw =>
    rw [hw] at hstage
    exact hstage.elim

end Pool

namespace PoolSys
variable {τ α κ : Type} [DecidableEq τ] {s s' : PoolSys τ α κ} {t : τ} {r : UInt32} {w : Fin 64}

/-- The call `t` of `thread_pool_wake_up_worker_by_req_id`, and its three sections. -/
def wakeSections (t : τ) (r : UInt32) (o : Nat → Oracle) : List (Act τ α κ) :=
  .call t (.wakeUp r) (o 0) :: (List.range 3).map fun k => .thread t (o (k + 1))

/-- The next `n` sections of worker `w`. -/
def turns (w : Fin 64) (os : Nat → Oracle) (n : Nat) : List (Act τ α κ) :=
  (List.range n).map fun k => .worker w (os k)

/-- Between `s` and `s'` worker `w` executed the oldest queued task of `r`, and every other task is where it was. -/
def OldestExecuted (r : UInt32) (w : Fin 64) (s s' : PoolSys τ α κ) : Prop :=
  ∃ task rest, popFirst (fun x => x.requestId == r) (s.pool.workers w).queue = some (task, rest) ∧
    (s'.pool.workers w).queue = rest ∧ (∀ j ≠ w, (s'.pool.workers j).queue = (s.pool.workers j).queue) ∧
    s'.pool.hist.taken = s.pool.hist.taken ++ [(w, task)] ∧ s'.pool.hist.returned = s.pool.hist.returned ++ [task]

/-- A wake-up of `r` returns 0, worker `w` comes to wait again, and whenever it does it has executed the oldest
task of `r`. -/
def WakesOldest (s : PoolSys τ α κ) (t : τ) (r : UInt32) (w : Fin 64) : Prop :=
  ∀ o os : Nat → Oracle, ∃ u, exec step s (wakeSections t r o) = some u ∧ u.threads t = .done (.int 0) ∧
    (∃ n s', exec step u (turns w os (n + 1)) = some s' ∧ (s'.pool.workers w).pc = .wait) ∧
    ∀ n s', exec step u (turns w os (n + 1)) = some s' → (s'.pool.workers w).pc = .wait → OldestExecuted r w s s'

/-- What a wake-up of `r` leaves that found worker `i`. -/
def wokenUp (s : PoolSys τ α κ) (t : τ) (r : UInt32) (i : Fin 64) : PoolSys τ α κ :=
  { s with pool := { s.pool.setWorker i { s.pool.workers i with pendingReq := r } with
      hist := { s.pool.hist with woken := s.pool.hist.woken ++ [(t, r)] } } }.setThread t (.done (.int 0))

theorem exec_wakeSections {c : RequestContext τ κ} (ht : s.threads t = .idle) (hf : s.pool.findReqContext r = some c)
    (o : Nat → Oracle) : exec step s (wakeSections t r o) =
      if (s.pool.workers c.workerIdx).mutexFree then some (s.wokenUp t r c.workerIdx) else none := by
  have hd := Pool.deref_of_find hf
  have hrange : List.range 3 = [0, 1, 2] := rfl
  cases hm : (s.pool.workers c.workerIdx).mutexFree with
  | true =>
    simp only [wakeSections, hrange, List.map_cons, List.map_nil, exec, step, ht, enter, Option.bind_some,
      setThread_threads, if_true, setThread_pool, Pool.threadStep, hf, hd, hm, Option.map_some]
    simp [wokenUp, setThread]
  | false =>
    simp [wakeSections, hrange, exec, step, ht, enter, setThread_threads, Pool.threadStep, hf, hd, hm]

omit [DecidableEq τ] in
theorem turns_succ (w : Fin 64) (os : Nat → Oracle) (n : Nat) : (turns w os (n + 1) : List (Act τ α κ)) =
    .worker w (os 0) :: turns w (fun k => os (k + 1)) n := by
  rw [turns, List.range_succ_eq_map, List.map_cons, List.map_map]
  rfl

theorem alive {as : List (Act τ α κ)} (h : exec step start as = some s) : s.pool.isDestroying = false :=
  exec_inv' (I := fun s : PoolSys τ α κ => s.pool.isDestroying = false)
    (fun _ _ _ hu hs => (step_flags hs).2.trans hu) rfl h

section
variable {task : ThreadPoolTask τ α κ} {rest : List (ThreadPoolTask τ α κ)} {p₀ : Pool τ α κ}

theorem wokenUp_takes (hr : r ≠ 0) (ha : s.pool.isDestroying = false) (hpc : (s.pool.workers w).pc = .wait)
    (hpop : popFirst (fun x => x.requestId == r) (s.pool.workers w).queue = some (task, rest)) (o : Oracle) :
    ∃ u, (s.wokenUp t r w).step (.worker w o) = some u ∧ Pool.Turn (s.wokenUp t r w).pool w task rest u.pool := by
  have hwait : ((s.wokenUp t r w).pool.workers w).pc = .wait := by simpa [wokenUp] using hpc
  have hstep : (s.wokenUp t r w).pool.workerStep w o = some ((s.wokenUp t r w).pool.loopHead w) := by
    rw [Pool.workerStep, hwait]
  refine ⟨_, by rw [step, hstep, Option.map_some], ?_⟩
  exact .take (r := r) hwait (by simp [wokenUp]) hr (by simpa [wokenUp] using hpop) ha (Pool.workerStep_cases hstep)

theorem turn_exec {n : Nat} {os : Nat → Oracle} (h : Pool.Turn p₀ w task rest s.pool)
    (he : exec step s (turns w os n) = some s') : Pool.Turn p₀ w task rest s'.pool := by
  refine exec_inv (I := fun s : PoolSys τ α κ => Pool.Turn p₀ w task rest s.pool) (C := fun _ a => ∃ o, a = .worker w o)
    (fun u a u' hu ha (hs : u.step a = some u') => ?_) h (Along.of_forall fun a ha => ?_) he
  · obtain ⟨o, rfl⟩ := ha
    cases step_cases hs with
    | worker _ _ p hp => exact hu.step hp
  · obtain ⟨k, -, rfl⟩ := List.mem_map.1 ha
    exact ⟨_, rfl⟩

/-- Whatever its steps find, the worker comes to wait again. -/
theorem turn_waits (h : Pool.Turn p₀ w task rest s.pool) (os : Nat → Oracle) :
    ∃ n s', exec step s (turns w os n) = some s' ∧ (s'.pool.workers w).pc = .wait := by
  have hturn : ∀ u : PoolSys τ α κ, Pool.Turn p₀ w task rest u.pool → (u.pool.workers w).pc = .wait ∨ ∀ o, ∃ u',
      u.step (.worker w o) = some u' ∧ Pool.Turn p₀ w task rest u'.pool ∧
        (u'.pool.workers w).pc.toGo < (u.pool.workers w).pc.toGo := by
    intro u hu
    by_cases hpc : (u.pool.workers w).pc = .wait
    · exact .inl hpc
    · refine .inr fun o => ?_
      obtain ⟨p', hp, hlt⟩ := hu.progress o hpc
      exact ⟨{ u with pool := p' }, by rw [step, hp, Option.map_some], hu.step (Pool.workerStep_cases hp), hlt⟩
  obtain ⟨n, s', he, -, hwait⟩ :=
    exec_finish (fun o => Act.worker w o) (fun s : PoolSys τ α κ => (s.pool.workers w).pc.toGo) hturn h os
  exact ⟨n, s', he, hwait⟩

end

theorem step_unwoken (ha : s.pool.isDestroying = false) (hpc : (s.pool.workers w).pc = .wait)
    (hp : (s.pool.workers w).pendingReq = 0) (os : Nat → Oracle) :
    exec step s (turns w os 1) = some { s with pool := s.pool.setPc w .wait } := by
  have hstep : s.pool.workerStep w (os 0) = some (s.pool.setPc w .wait) := by
    simp [Pool.workerStep, hpc, Pool.loopHead, hp, Pool.park, ha]
  exact exec_cons.2 ⟨_, by rw [step, hstep, Option.map_some], rfl⟩

/-- A wake-up of `r` gets the oldest task of `r` executed on the waiting worker `w` if and only if `r` is not 0 and
`w` is the worker of the context that is found for `r`. -/
theorem wakesOldest_iff {as : List (Act τ α κ)} {c : RequestContext τ κ} (h : exec step start as = some s)
    (ht : s.threads t = .idle) (hc : c ∈ s.pool.ctxs r) (hw : c.workerIdx = w) (hpc : (s.pool.workers w).pc = .wait)
    (hp : (s.pool.workers w).pendingReq = 0) (hq : s.pool.queued w r ≠ []) :
    WakesOldest s t r w ↔ r ≠ 0 ∧ ∀ c', s.pool.findReqContext r = some c' → c'.workerIdx = w := by
  have ha := alive h
  obtain ⟨c', hf⟩ : ∃ c', s.pool.findReqContext r = some c' := by
    rw [Pool.findReqContext_eq]
    cases hl : s.pool.ctxs r with
    | nil => rw [hl] at hc; cases hc
    | cons c' l => exact ⟨c', rfl⟩
  obtain ⟨task, rest, hpop⟩ : ∃ task rest,
      popFirst (fun x => x.requestId == r) (s.pool.workers w).queue = some (task, rest) := by
    cases hpop : popFirst (fun x => x.requestId == r) (s.pool.workers w).queue with
    | none => exact absurd (popFirst_eq_none.1 hpop) hq
    | some y => exact ⟨y.1, y.2, rfl⟩
  constructor
  · intro hwakes
    obtain ⟨u, hu, -, -, hall⟩ := hwakes (fun _ => {}) fun _ => {}
    rw [exec_wakeSections ht hf] at hu
    split at hu
    swap
    · cases hu
    cases hu
    -- the queue of a worker that was not woken is the same after its turn
    have hunwoken : ((s.wokenUp t r c'.workerIdx).pool.workers w).pendingReq ≠ 0 := by
      intro hzero
      have hwait : ((s.wokenUp t r c'.workerIdx).pool.workers w).pc = .wait := by
        simp only [wokenUp, setThread_pool, Pool.setWorker_workers]
        split
        · rename_i hi
          rw [← hi]
          exact hpc
        · exact hpc
      have hsame : ((s.wokenUp t r c'.workerIdx).pool.workers w).queue = (s.pool.workers w).queue := by
        simp only [wokenUp, setThread_pool, Pool.setWorker_workers]
        split
        · rename_i hi
          rw [hi]
        · rfl
      obtain ⟨task', rest', hpop', hrest, -⟩ :=
        hall 0 _ (step_unwoken (by exact ha) hwait hzero _) (by simp)
      have hlen := popFirst_length hpop'
      rw [← hrest] at hlen
      simp [hsame] at hlen
    refine ⟨fun hr => hunwoken ?_, fun c'' hc'' => ?_⟩
    · simp only [wokenUp, setThread_pool, Pool.setWorker_workers]
      split
      · exact hr
      · exact hp
    · obtain rfl := Option.some.inj (hf.symm.trans hc'')
      by_contra hne
      refine hunwoken ?_
      simp only [wokenUp, setThread_pool, Pool.setWorker_workers, if_neg (Ne.symm hne)]
      exact hp
  · rintro ⟨hr, hidx⟩ o os
    obtain rfl := hidx c' hf
    have hm : (s.pool.workers c'.workerIdx).mutexFree = true := by rw [WorkerThread.mutexFree, hpc]
    refine ⟨s.wokenUp t r c'.workerIdx, by rw [exec_wakeSections ht hf, if_pos hm], by simp [wokenUp, setThread], ?_, ?_⟩
    · obtain ⟨u, hu, hturn⟩ := wokenUp_takes (t := t) hr ha hpc hpop (os 0)
      obtain ⟨n, s', he, hwait⟩ := turn_waits hturn fun k => os (k + 1)
      exact ⟨n, s', by rw [turns_succ]; exact exec_cons.2 ⟨u, hu, he⟩, hwait⟩
    · intro n s' he hwait
      obtain ⟨u, hu, hturn⟩ := wokenUp_takes (t := t) hr ha hpc hpop (os 0)
      rw [turns_succ] at he
      obtain ⟨u', hu', he⟩ := exec_cons.1 he
      cases hu.symm.trans hu'
      have hend := turn_exec hturn he
      refine ⟨task, rest, hpop, hend.queue, fun j hj => ?_, hend.taken, ?_⟩
      · rw [hend.others j hj]
        simp only [wokenUp, setThread_pool, Pool.setWorker_workers, if_neg hj]
      · have hstage := hend.stage
        rw [hwait] at hstage
        exact hstage

/-! ### A request of one task -/

/-- Call 0 submits a task under the id `r`. -/
def submitOne (r : UInt32) : List (Act (Fin 2) Unit Unit) :=
  .call 0 (.submitTask r () none) {} :: List.replicate 5 (.thread 0 {})

def sevenQueued : PoolSys (Fin 2) Unit Unit := last step start (submitOne 7) (by decide +kernel)

def zeroQueued : PoolSys (Fin 2) Unit Unit := last step start (submitOne 0) (by decide +kernel)

theorem sevenQueued_wakes : WakesOldest sevenQueued 1 7 0 :=
  (wakesOldest_iff (c := ⟨7, 0, 1, none, 0⟩) (exec_last _ : exec step start (submitOne 7) = some sevenQueued) (by decide +kernel)
    (by decide +kernel) rfl (by decide +kernel) (by decide +kernel) (by decide +kernel)).2
    ⟨by decide, by decide +kernel⟩

/-- Woken for the id 0, the worker waits again with the task still queued. -/
theorem zeroQueued_sleeps : exec step start (submitOne 0) = some zeroQueued ∧ zeroQueued.threads 0 = .done (.ids [1]) ∧
    (∃ c ∈ zeroQueued.pool.ctxs 0, c.workerIdx = 0) ∧ (zeroQueued.pool.workers 0).pc = .wait ∧
    (zeroQueued.pool.workers 0).pendingReq = 0 ∧ (zeroQueued.pool.queued 0 0).length = 1 ∧
    ¬ WakesOldest zeroQueued 1 0 0 := by
  refine ⟨exec_last _, by decide +kernel, ⟨⟨0, 0, 1, none, 0⟩, by decide +kernel, rfl⟩, by decide +kernel,
    by decide +kernel, by decide +kernel, fun h => ?_⟩
  obtain ⟨u, hu, -, -, hall⟩ := h (fun _ => {}) fun _ => {}
  have hu' := exec_wakeSections (s := zeroQueued) (t := 1) (r := 0) (c := ⟨0, 0, 1, none, 0⟩) (by decide +kernel)
    (by decide +kernel) fun _ => {}
  rw [if_pos (by decide +kernel)] at hu'
  cases hu.symm.trans hu'
  obtain ⟨task, rest, hpop, hrest, -⟩ := hall 0 _ (step_unwoken (by decide +kernel) (by decide +kernel) (by decide +kernel) _) (by simp)
  have hlen := popFirst_length hpop
  rw [← hrest] at hlen
  exact absurd hlen (by decide +kernel)

end PoolSys
end OsTransport
