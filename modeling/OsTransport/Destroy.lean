import OsTransport.Shutdown

/-!
# What a destroyed pool has executed

A worker leaves its loop as soon as `is_destroying` is set and its `pending_req` is 0, whatever its queue
holds. So while a pool is destroyed each worker executes the task its pending wake-up names and no other:
what it leaves queued (`WorkerThread.leftover`) is settled when `thread_pool_destroy` is called.
-/

namespace OsTransport

/-- The tasks the worker is not about to take. -/
def WorkerThread.leftover {τ α κ : Type} (w : WorkerThread τ α κ) : List (ThreadPoolTask τ α κ) :=
  if w.pendingReq = 0 then w.queue
  else match popFirst (fun task => task.requestId == w.pendingReq) w.queue with
    | some (_, rest) => rest
    | none => w.queue

/-- The function of the task was executed once. -/
def History.RunOnce {τ α κ : Type} (h : History τ α κ) (task : ThreadPoolTask τ α κ) : Prop :=
  ∃ before after, h.returned = before ++ task :: after ∧ task ∉ before ∧ task ∉ after

/-- Every task that was queued was unlinked by a cancel or executed once. -/
def Pool.AllExecuted {τ α κ : Type} (p : Pool τ α κ) : Prop :=
  ∀ e ∈ p.hist.attached, ∀ task ∈ e.2.2, (∃ c ∈ p.hist.cancelled, task ∈ c.2.2) ∨ p.hist.RunOnce task

theorem WorkerThread.leftover_zero {τ α κ : Type} {w : WorkerThread τ α κ} (h : w.pendingReq = 0) :
    w.leftover = w.queue := if_pos h

namespace Pool
variable {τ α κ : Type} [DecidableEq τ]

/-- While a worker executes a task, its `pending_req` is 0: its mutex was held since it was cleared. -/
def Served (p : Pool τ α κ) : Prop :=
  ∀ i, (p.workers i).pc ≠ .wait → (p.workers i).pc ≠ .exited → (p.workers i).pendingReq = 0

theorem workerStep_pending {p p' : Pool τ α κ} {i : Fin 64} {o : Oracle} (hs : WorkerStep p i o p')
    (h : (p.workers i).pc ≠ .wait → (p.workers i).pc ≠ .exited → (p.workers i).pendingReq = 0)
    (hw : (p'.workers i).pc ≠ .wait) : (p'.workers i).pendingReq = 0 := by
  cases hs with
  | park st pc hpc hq hpark => simp
  | take task rest hpc hr hpop => simp
  | finish task st pc hpc hpark =>
    have := h (by rw [hpc]; simp) (by rw [hpc]; simp)
    simpa using this
  | func task hpc | complete task cbs hpc | findSome task c hpc | findNone task hpc | dec task x c hpc
    | decDangling task x hpc | batch task cb cbs hpc | remove task hpc =>
    have := h (by rw [hpc]; simp) (by rw [hpc]; simp)
    simpa using this

theorem Served.workerStep {p p' : Pool τ α κ} {i : Fin 64} {o : Oracle} (h : p.Served)
    (hs : WorkerStep p i o p') : p'.Served := by
  intro j hw he
  rcases eq_or_ne j i with rfl | hj
  · exact workerStep_pending hs (h j) hw
  · rw [workers_of_ne hs hj] at hw he ⊢
    exact h j hw he

theorem Served.threadStep {p p' : Pool τ α κ} {t : τ} {o : Oracle} {pc pc' : Pc τ α κ} (h : p.Served)
    (hs : ThreadStep p t o pc p' pc') : p'.Served := by
  intro j hw he
  have hpc := (threadStep_worker hs j).1
  rw [hpc] at hw he
  have hj := h j hw he
  cases hs with
  | wakeSet r i hm =>
    rcases eq_or_ne j i with rfl | hne
    · unfold WorkerThread.mutexFree at hm
      split at hm
      · rename_i hwait; exact absurd hwait hw
      · rename_i hend; exact absurd hend he
      · cases hm
    · show ((p.setWorker i _).workers j).pendingReq = 0
      rw [setWorker_workers_ne _ hne]
      exact hj
  | attach b i nodes size hm =>
    show ((p.setWorker i _).workers j).pendingReq = 0
    rw [setWorker_workers]
    split
    · rename_i hji
      rw [← hji]; exact hj
    · exact hj
  | cancelQueue r x i hm =>
    show ((p.setWorker i _).workers j).pendingReq = 0
    rw [setWorker_workers]
    split
    · rename_i hji
      rw [← hji]; exact hj
    · exact hj
  | cancelUpdate => split <;> exact hj
  | cancelUpdateDangling => split <;> exact hj
  | _ => exact hj

/-- Executing the task that a wake-up names leaves the others where they are. -/
theorem leftover_workerStep {p p' : Pool τ α κ} {i : Fin 64} {o : Oracle} (hs : WorkerStep p i o p')
    (j : Fin 64) : (p'.workers j).leftover = (p.workers j).leftover := by
  rcases eq_or_ne j i with rfl | hj
  swap
  · rw [workers_of_ne hs hj]
  cases hs with
  | park st pc hpc hq hpark =>
    rw [WorkerThread.leftover_zero (by simp)]
    unfold WorkerThread.leftover
    rcases hq with hz | hnone
    · simp [hz]
    · rw [popFirst_eq_none.2 hnone]
      simp
  | take task rest hpc hr hpop =>
    rw [WorkerThread.leftover_zero (by simp)]
    simp [WorkerThread.leftover, hr, hpop]
  | _ => simp [WorkerThread.leftover]

end Pool

open Lts
namespace PoolSys
variable {τ α κ : Type} [DecidableEq τ]

/-- What was cancelled had been attached and is not queued any more. -/
def Culled (s : PoolSys τ α κ) : Prop :=
  ∀ e ∈ s.pool.hist.cancelled, ∀ task ∈ e.2.2,
    (s.threads task.owner).accepted = true ∧ ∀ i, task ∉ (s.pool.workers i).queue

theorem Culled.step {s s' : PoolSys τ α κ} {a : Act τ α κ} (h : Culled s) (ht : ∀ t, Tracked s t)
    (hs : s.step a = some s') : Culled s' := by
  have hacc : ∀ {t}, (s.threads t).accepted = true → (s'.threads t).accepted = true := accepted_step ht hs
  cases step_cases hs with
  | call u c o hu => exact fun e he task htask => ⟨hacc (h e he task htask).1, (h e he task htask).2⟩
  | worker i o p hp =>
    intro e he task htask
    rw [show p.hist.cancelled = s.pool.hist.cancelled from Pool.workerStep_cancelled hp] at he
    exact ⟨hacc (h e he task htask).1, fun j hj =>
      (h e he task htask).2 j ((Pool.workerStep_queue hp).2 j task hj)⟩
  | thread u o p pc hp =>
    have hold : ∀ e ∈ s.pool.hist.cancelled, ∀ task ∈ e.2.2, ∀ i, task ∉ (p.workers i).queue := by
      intro e he task htask i hi
      rcases Pool.threadStep_queue hp (ht u).made hi with hi | ⟨rfl, hnot⟩
      · exact (h e he task htask).2 i hi
      · rw [(h e he task htask).1] at hnot
        cases hnot
    intro e he task htask
    rcases Pool.threadStep_cancelled hp with hsame | ⟨i, r, hadd, hq⟩
    · change e ∈ p.hist.cancelled at he
      rw [hsame] at he
      exact ⟨hacc (h e he task htask).1, hold e he task htask⟩
    change e ∈ p.hist.cancelled at he
    rw [hadd] at he
    rcases List.mem_append.1 he with he | he
    · exact ⟨hacc (h e he task htask).1, hold e he task htask⟩
    -- a task that is unlinked now was on that queue alone
    obtain rfl := List.mem_singleton.1 he
    change task ∈ s.pool.queued i r at htask
    obtain ⟨hqueue, hr⟩ := List.mem_filter.1 htask
    obtain ⟨hacc₀, items, pre, suf, -, hsplit, -⟩ := (ht task.owner).queued hqueue
    refine ⟨hacc hacc₀, fun j hj => ?_⟩
    change task ∈ (p.workers j).queue at hj
    rcases eq_or_ne j i with rfl | hji
    · rw [hq] at hj
      have := (List.mem_filter.1 hj).2
      rw [hr] at this
      cases this
    · rcases Pool.threadStep_queue hp (ht u).made hj with hj | ⟨rfl, hnot⟩
      · have hlane : task ∈ (s.pool.lane task.owner).queued j := List.mem_filter.2 ⟨hj, by simp⟩
        rw [(hsplit.elsewhere j hji).1] at hlane
        cases hlane
      · rw [hacc₀] at hnot
        cases hnot

omit [DecidableEq τ] in
theorem runOnce_of_mem {h : History τ α κ} {task : ThreadPoolTask τ α κ} {l : List (ThreadPoolTask τ α κ)}
    {f : ThreadPoolTask τ α κ → Bool} (hf : f task = true) (hl : h.returned.filter f = l) (hnd : l.Nodup)
    (hm : task ∈ l) : h.RunOnce task := by
  have hret : task ∈ h.returned := by
    rw [← hl] at hm
    exact (List.mem_filter.1 hm).1
  obtain ⟨before, after, hsplit⟩ := List.append_of_mem hret
  rw [hsplit, List.filter_append, List.filter_cons_of_pos hf] at hl
  rw [← hl, List.nodup_append, List.nodup_cons] at hnd
  obtain ⟨-, ⟨hafter, -⟩, hdisj⟩ := hnd
  refine ⟨before, after, hsplit, fun hb => ?_, fun ha => hafter (List.mem_filter.2 ⟨ha, hf⟩)⟩
  exact hdisj task (List.mem_filter.2 ⟨hb, hf⟩) task (List.mem_cons_self ..) rfl

/-- Once every worker has ended, what was not cancelled was executed if and only if it is not queued. -/
theorem allExecuted_iff {s : PoolSys τ α κ} (ht : ∀ t, Tracked s t) (hc : Culled s)
    (hend : ∀ i, (s.pool.workers i).pc = .exited) :
    s.pool.AllExecuted ↔ ∀ i, (s.pool.workers i).queue = [] := by
  have hdone : ∀ {t w items pre suf}, (s.pool.lane t).Split (fun task => task.requestId) w items pre suf →
      s.pool.hist.returned.filter (fun task => task.owner == t) = pre := fun {t w _ _ _} hsplit => by
    have hex := hsplit.executed
    have hnone : (s.pool.lane t).running w = [] := by
      show ((s.pool.workers w).pc.current.filter _) = []
      rw [hend w]; rfl
    rw [hnone, List.append_nil] at hex
    exact hex
  constructor
  · intro hall i
    rw [List.eq_nil_iff_forall_not_mem]
    intro task htask
    obtain ⟨-, items, pre, suf, hnd, hsplit, hsuf⟩ := (ht task.owner).queued htask
    have hatt : (i, items) ∈ (s.pool.lane task.owner).attached := by
      rw [hsplit.attached]; exact List.mem_singleton_self _
    obtain ⟨e, he, hei⟩ := List.mem_map.1 hatt
    have hmem : task ∈ e.2.2 := by
      rw [hei, hsplit.append]; exact List.mem_append_right _ hsuf
    rcases hall e (List.mem_filter.1 he).1 task hmem with ⟨c, hcan, hin⟩ | ⟨before, after, hret, -, -⟩
    · exact (hc c hcan task hin).2 i htask
    · have hpre : task ∈ pre := by
        rw [← hdone hsplit, hret]
        exact List.mem_filter.2 ⟨by simp, by simp⟩
      rw [hsplit.append] at hnd
      exact (List.nodup_append.1 hnd).2.2 task hpre task hsuf rfl
  · intro hempty e he task htask
    have hatt : e.2 ∈ (s.pool.lane e.1).attached := List.mem_map.2 ⟨e, List.mem_filter.2 ⟨he, by simp⟩, rfl⟩
    have hacc : (s.threads e.1).accepted = true := by
      by_contra hne
      rw [((ht e.1).unused (by simpa using hne)).attached] at hatt
      cases hatt
    obtain ⟨b, w, items, pre, suf, hmade, -, hsplit⟩ := (ht e.1).split hacc
    obtain rfl : items = e.2.2 := by
      rw [hsplit.attached, List.mem_singleton] at hatt
      rw [hatt]
    have howner : task.owner = e.1 := (hmade.of_mem htask).1
    rw [hsplit.append] at htask
    rcases List.mem_append.1 htask with hpre | hsuf
    · have hnd := hmade.nodup
      rw [hsplit.append] at hnd
      exact .inr (runOnce_of_mem (f := fun x => x.owner == e.1) (by simpa using howner) (hdone hsplit)
        (List.nodup_append.1 hnd).1 hpre)
    · refine .inl ?_
      rcases hsplit.rest with hq | ⟨-, r, -, hcan⟩
      · have hnil : (s.pool.lane e.1).queued w = [] := by
          show ((s.pool.workers w).queue.filter _) = []
          rw [hempty w]; rfl
        rw [← hq, hnil] at hsuf
        cases hsuf
      · obtain ⟨c, hc, hcs⟩ := List.mem_map.1 hcan
        refine ⟨c, hc, ?_⟩
        have hin : c.2.2.filter (fun task => task.owner == e.1) = suf := congrArg (fun x => x.2.2) hcs
        rw [← hin] at hsuf
        exact (List.mem_filter.1 hsuf).1

/-- The same calls and the same tasks, at the same places. -/
structure Alike (y z : PoolSys τ α κ) : Prop where
  running : y.pool.isRunning = true → z.pool.isRunning = true
  threads : z.threads = y.threads
  hist : z.pool.hist = y.pool.hist
  workers : ∀ i, (z.pool.workers i).queue = (y.pool.workers i).queue ∧
    (z.pool.workers i).pendingReq = (y.pool.workers i).pendingReq ∧ (z.pool.workers i).pc = (y.pool.workers i).pc

omit [DecidableEq τ] in
theorem Alike.refl (y : PoolSys τ α κ) : Alike y y := ⟨id, rfl, rfl, fun _ => ⟨rfl, rfl, rfl⟩⟩

/-- Every task is somewhere. -/
structure Accounted (s : PoolSys τ α κ) : Prop where
  tracked : ∀ t, Tracked s t
  culled : Culled s
  served : s.pool.Served

theorem Accounted.step {s s' : PoolSys τ α κ} {a : Act τ α κ} (h : Accounted s) (hs : s.step a = some s') :
    Accounted s' where
  tracked := tracked_step h.tracked hs
  culled := h.culled.step h.tracked hs
  served := by
    cases step_cases hs with
    | call t c o ht => exact h.served
    | thread t o p pc hp => exact h.served.threadStep hp
    | worker i o p hp => exact h.served.workerStep hp

theorem Accounted.alike {y z : PoolSys τ α κ} (h : Accounted y) (hyz : Alike y z) : Accounted z where
  tracked t := by
    have hlane : z.pool.lane t = y.pool.lane t := by
      simp only [Pool.lane, hyz.hist, (hyz.workers _).1, (hyz.workers _).2.2]
    have ht := h.tracked t
    constructor <;> rw [hyz.threads]
    · exact ht.made
    · rw [hlane]; exact ht.unused
    · rw [hlane]; exact ht.split
  culled e he task htask := by
    rw [hyz.hist] at he
    rw [hyz.threads]
    exact ⟨(h.culled e he task htask).1, fun i hi =>
      (h.culled e he task htask).2 i ((hyz.workers i).1 ▸ hi)⟩
  served i hw he := by
    rw [(hyz.workers i).2.2] at hw he
    exact (hyz.workers i).2.1.trans (h.served i hw he)

end PoolSys

/-- The step of the pool that an action makes. -/
def LifeAct.act? {τ α κ : Type} : LifeAct τ α κ → Option (Act τ α κ)
  | .call t c o => some (.call t c o)
  | .thread t o _ => some (.thread t o)
  | .worker i o _ => some (.worker i o)
  | _ => none

namespace Life
variable {τ α κ : Type} [DecidableEq τ] {s s' : Life τ α κ}

omit [DecidableEq τ] in
theorem begin_alike (s : Life τ α κ) (i : Fin 64) (pick : Bool) : PoolSys.Alike s.sys (s.begin i pick).sys := by
  rw [Life.begin, signal_sys]
  refine ⟨id, rfl, rfl, fun j => ?_⟩
  show ((s.sys.pool.setWorker i _).workers j).queue = _ ∧ ((s.sys.pool.setWorker i _).workers j).pendingReq = _ ∧
    ((s.sys.pool.setWorker i _).workers j).pc = _
  rw [Pool.setWorker_workers]
  split
  · rename_i hj
    rw [hj]
    exact ⟨rfl, rfl, rfl⟩
  · exact ⟨rfl, rfl, rfl⟩

/-- A step of the life is a step of the pool or moves no task. -/
theorem sys_step {a : LifeAct τ α κ} (hs : s.step a = some s') : ∃ y, PoolSys.Alike s.sys y ∧
    (s'.sys = y ∨ ∃ b, a.act? = some b ∧ y.step b = some s'.sys) := by
  have hsame : s'.sys = s.sys → ∃ y, PoolSys.Alike s.sys y ∧
      (s'.sys = y ∨ ∃ b, a.act? = some b ∧ y.step b = some s'.sys) := fun h => ⟨s.sys, .refl _, .inl h⟩
  cases step_cases hs with
  | call t c o y hsh hy => exact ⟨s.sys, .refl _, .inr ⟨_, rfl, hy⟩⟩
  | thread t o pick y s' hsh hm hy hs =>
    have hsys : s'.sys = y := by
      rcases hs with rfl | ⟨i, -, rfl⟩ | ⟨i, -, rfl⟩ <;> rfl
    exact ⟨s.sys, .refl _, .inr ⟨_, rfl, hsys ▸ hy⟩⟩
  | begin i o pick y hn hm hy => exact ⟨_, begin_alike s i pick, .inr ⟨_, rfl, hy⟩⟩
  | turn i o pick y hn hy => exact ⟨s.sys, .refl _, .inr ⟨_, rfl, hy⟩⟩
  | spurious i pick s' hs =>
    refine hsame ?_
    rcases hs with rfl | ⟨i, -, rfl⟩ | ⟨i, -, rfl⟩ <;> rfl
  | signal i o pick w ho hm hw => exact hsame (signal_sys s i pick)
  | start ho =>
    exact ⟨{ s.sys with pool := s.sys.pool.threadPoolStart }, ⟨fun _ => rfl, rfl, rfl, fun _ => ⟨rfl, rfl, rfl⟩⟩,
      .inl rfl⟩
  | setFlag o pick ho =>
    exact ⟨{ s.sys with pool.isDestroying := true }, ⟨id, rfl, rfl, fun _ => ⟨rfl, rfl, rfl⟩⟩, .inl rfl⟩
  | _ => exact hsame rfl

theorem accounted_step {a : LifeAct τ α κ} (h : PoolSys.Accounted s.sys) (hs : s.step a = some s') :
    PoolSys.Accounted s'.sys := by
  obtain ⟨y, hy, rfl | ⟨b, -, hb⟩⟩ := sys_step hs
  · exact h.alike hy
  · exact (h.alike hy).step hb

theorem accounted {as : List (LifeAct τ α κ)} (h : exec Life.step calloced as = some s) :
    PoolSys.Accounted s.sys := by
  refine exec_inv' (I := fun s => PoolSys.Accounted s.sys) (fun _ _ _ hi hs => accounted_step hi hs) ?_ h
  refine ⟨fun t => ?_, fun e he => (by cases he), fun i hw => absurd rfl hw⟩
  exact ⟨trivial, fun _ => ⟨rfl, fun _ => rfl, fun _ => rfl, rfl, rfl⟩, fun h => by cases h⟩

/-! ### Destroying a pool -/

/-- What the owner and the workers do. -/
def Destroying : LifeAct τ α κ → Prop
  | .worker .. | .spurious .. | .destroy | .owner .. => True
  | _ => False

/-- From `s₀` on no call has stepped. -/
structure Draining (s₀ s : Life τ α κ) : Prop where
  alert : Alert s
  accounted : PoolSys.Accounted s.sys
  running : s.sys.pool.isRunning = true
  leftover : ∀ i, (s.sys.pool.workers i).leftover = (s₀.sys.pool.workers i).leftover
  pending : ∀ i, (s.sys.pool.workers i).pc ≠ .wait → (s.sys.pool.workers i).pendingReq = 0

omit [DecidableEq τ] in
theorem leftover_alike {y z : PoolSys τ α κ} (h : PoolSys.Alike y z) (i : Fin 64) :
    (z.pool.workers i).leftover = (y.pool.workers i).leftover := by
  unfold WorkerThread.leftover
  rw [(h.workers i).1, (h.workers i).2.1]

theorem Draining.step {s₀ : Life τ α κ} {a : LifeAct τ α κ} (h : Draining s₀ s) (ha : Destroying a)
    (hs : s.step a = some s') : Draining s₀ s' := by
  have halert := h.alert.step hs
  have haccounted := accounted_step h.accounted hs
  obtain ⟨y, hy, hsys⟩ := sys_step hs
  have hleft : ∀ i, (y.pool.workers i).leftover = (s₀.sys.pool.workers i).leftover := fun i =>
    (leftover_alike hy i).trans (h.leftover i)
  have hpending : ∀ i, (y.pool.workers i).pc ≠ .wait → (y.pool.workers i).pendingReq = 0 := fun i hw => by
    rw [(hy.workers i).2.2] at hw
    exact (hy.workers i).2.1.trans (h.pending i hw)
  have hrunning := hy.running h.running
  rcases hsys with hsys | ⟨b, hab, hb⟩
  · exact ⟨halert, haccounted, hsys ▸ hrunning, hsys ▸ hleft, hsys ▸ hpending⟩
  · have hflags := PoolSys.step_flags hb
    cases a with
    | worker i o pick =>
      obtain rfl := Option.some.inj hab
      obtain ⟨p, hp, hps⟩ := Option.map_eq_some_iff.1 hb
      have hpool : s'.sys.pool = p := by rw [← hps]
      have hstep := Pool.workerStep_cases hp
      refine ⟨halert, haccounted, hflags.1.trans hrunning, fun j => ?_, fun j hw => ?_⟩
      · rw [hpool, Pool.leftover_workerStep hstep j]
        exact hleft j
      · rw [hpool] at hw ⊢
        rcases eq_or_ne j i with rfl | hj
        · exact Pool.workerStep_pending hstep (fun hw _ => hpending j hw) hw
        · rw [Pool.workers_of_ne hstep hj] at hw ⊢
          exact hpending j hw
    | call | thread => exact ha.elim
    | _ => cases hab

/-- `thread_pool_destroy`, every worker ending as soon as it is signalled. -/
def destroyRun : List (LifeAct (Fin 2) Unit Unit) :=
  .destroy :: .owner {} true ::
    (List.finRange 64).flatMap (fun i => [.owner {} true, .worker i {} true]) ++ List.replicate 64 (.owner {} true)

theorem destroyRun_destroying : ∀ a ∈ destroyRun, Destroying a := by
  intro a ha
  rcases List.mem_append.1 ha with ha | ha
  · rcases List.mem_cons.1 ha with rfl | ha
    · trivial
    rcases List.mem_cons.1 ha with rfl | ha
    · trivial
    obtain ⟨i, -, ha⟩ := List.mem_flatMap.1 ha
    rcases List.mem_cons.1 ha with rfl | ha
    · trivial
    · obtain rfl := List.mem_singleton.1 ha
      trivial
  · obtain rfl := List.eq_of_mem_replicate ha
    trivial

/-- A task of request 7 was submitted. -/
def oneTask : Life (Fin 2) Unit Unit :=
  last Life.step running (.call 0 (.submitTask 7 () none) {} :: List.replicate 5 (.thread 0 {} true))
    (by decide +kernel)

theorem oneTask_exec : exec Life.step calloced (startRun ++
    .call 0 (.submitTask 7 () none) {} :: List.replicate 5 (.thread 0 {} true)) = some oneTask :=
  exec_append.2 ⟨running, startRun_exec, exec_last _⟩

/-- A wake-up of request 7 was accepted too. -/
def wokenTask : Life (Fin 2) Unit Unit :=
  last Life.step oneTask (.call 1 (.wakeUp 7) {} :: List.replicate 3 (.thread 1 {} true)) (by decide +kernel)

theorem wokenTask_exec : exec Life.step calloced ((startRun ++
    .call 0 (.submitTask 7 () none) {} :: List.replicate 5 (.thread 0 {} true)) ++
    .call 1 (.wakeUp 7) {} :: List.replicate 3 (.thread 1 {} true)) = some wokenTask :=
  exec_append.2 ⟨oneTask, oneTask_exec, exec_last _⟩

/-- Worker 0 executes the task and sleeps again before it is signalled. -/
def wokenDestroyed : Life (Fin 2) Unit Unit :=
  last Life.step wokenTask (List.replicate 9 (.worker 0 {} true) ++ destroyRun) (by decide +kernel)

/-- The task has no wake-up when the pool is destroyed. -/
def dropped : Life (Fin 2) Unit Unit := last Life.step oneTask destroyRun (by decide +kernel)

end Life
end OsTransport
