import OsTransport.Deadlock

/-!
# Calls from inside a worker

What it takes to bring a worker to wait for itself. Every run of a `PoolSys` is one of a `LockSys` in which
each thread locks, runs its section and unlocks before another thread moves (`lift`); after a run that leaves
worker 0 in a piece of code with the context of a request bound to it, a call of that code locks the mutex
that the worker holds.
-/

namespace OsTransport
open Lts Locking

theorem PoolSys.enter_ne_idle {τ α κ : Type} {p : Pool τ α κ} {o : Oracle} {c : Call α κ} :
    PoolSys.enter p o c ≠ .idle := by
  cases c <;> simp only [PoolSys.enter] <;> repeat (first | split | simp)

namespace Pool
variable {τ α κ : Type} [DecidableEq τ] {p p' : Pool τ α κ} {t : τ} {o : Oracle} {pc pc' : Pc τ α κ}

omit [DecidableEq τ] in
theorem selectStep_ne_idle {b : Submit α κ} {nodes : List (ThreadPoolTask τ α κ)} {i : Fin 64}
    {best : Option (Fin 64)} {minLoad : UInt32} : p.selectStep b nodes i best minLoad ≠ .idle := by
  unfold selectStep afterSelect
  repeat (first | split | simp)

theorem threadStep_ne_idle (h : ThreadStep p t o pc p' pc') : pc' ≠ .idle := by
  cases h with
  | select => exact selectStep_ne_idle
  | create => unfold afterCreate; repeat (first | split | simp)
  | cancelQueue => split <;> simp
  | _ => simp

end Pool

/-! ### A run that leaves worker 0 in a task -/

namespace PoolSys
variable {τ α κ : Type} [DecidableEq τ] {y : PoolSys τ α κ} {t : τ}

/-- `thread_pool_submit_task` up to the worker it selects, the first one. -/
theorem choose_exec {r : UInt32} {a : α} {cb : Option κ} (ht : y.threads t = .idle) (hr : y.pool.isRunning = true)
    (hpc : (y.pool.workers 0).pc = .wait) (hst : (y.pool.workers 0).state = .idle)
    (hq : (y.pool.workers 0).queueSize = 0) :
    exec PoolSys.step y [.call t (.submitTask r a cb) {}, .thread t {}, .thread t {}] =
      some ({ y with pool.nextTaskId := y.pool.nextTaskId + 1 }.setThread t
        (.attach (Submit.single r a cb) 0 [y.pool.createNode t (Submit.single r a cb) 0 a])) := by
  simp [exec, step, enter, ht, hr, setThread, Pool.threadStep, Submit.single, Pool.afterCreate, WorkerThread.mutexFree,
    hpc, hst, hq, Pool.selectStep, Pool.afterSelect]

theorem enqueue_exec {r : UInt32} {a : α} {cb : Option κ} {task : ThreadPoolTask τ α κ}
    (ht : y.threads t = .attach (Submit.single r a cb) 0 [task])
    (hpc : (y.pool.workers 0).pc = .wait) (hf : y.pool.findReqContext r = none) :
    exec PoolSys.step y [.thread t {}, .thread t {}, .thread t {}] =
      some ({ y with
        pool := { y.pool.setWorker 0 ((y.pool.workers 0).workerQueuePush task) with
          hist := { y.pool.hist with attached := y.pool.hist.attached ++ [(t, 0, [task])] }
          }.insertReqContext (Pool.newContext t (Submit.single r a cb) 0) }.setThread t
        (.done (Pool.taskIds [task]))) := by
  have hf' : (y.pool.reqHash (hashReqId r)).find? (fun ctx => ctx.requestId == r) = none := hf
  simp [exec, step, ht, setThread, Pool.threadStep, Submit.single, WorkerThread.mutexFree, hpc, Pool.findReqContext, hf', Pool.setWorker]

theorem wake_exec {r : UInt32} {c : RequestContext τ κ} (ht : y.threads t = .idle)
    (hpc : (y.pool.workers 0).pc = .wait) (hf : y.pool.findReqContext r = some c) (hc : c.workerIdx = 0) :
    exec PoolSys.step y [.call t (.wakeUp r) {}, .thread t {}, .thread t {}, .thread t {}] =
      some ({ y with
        pool := { y.pool.setWorker 0 { y.pool.workers 0 with pendingReq := r } with
          hist := { y.pool.hist with woken := y.pool.hist.woken ++ [(t, r)] } } }.setThread t (.done (.int 0))) := by
  have hd := Pool.deref_of_find hf
  simp [exec, step, enter, ht, setThread, Pool.threadStep, hf, hd, hc, WorkerThread.mutexFree, hpc]


/-- What a run leaves behind: worker 0 executes a task while a context of `r` is bound to it. -/
structure Primed (y : PoolSys τ α κ) (a : α) (cb : Option κ) (r : UInt32) : Prop where
  running : y.pool.isRunning = true
  func : ∃ task, (y.pool.workers 0).pc = .func task ∧ task.taskArg.userArg = a ∧ task.taskArg.completeCb = cb
  ctx : ∃ c, y.pool.findReqContext r = some c ∧ c.workerIdx = 0

/-- Two submissions that come to select a worker at the same time both take worker 0; then the second request
is woken. -/
def primeRun (t₀ t₁ t₂ : τ) (r₀ r : UInt32) (a : α) (cb : Option κ) : List (Act τ α κ) :=
  [.call t₀ (.submitTask r₀ a cb) {}, .thread t₀ {}, .thread t₀ {}] ++
  [.call t₁ (.submitTask r a none) {}, .thread t₁ {}, .thread t₁ {}] ++
  [.thread t₁ {}, .thread t₁ {}, .thread t₁ {}] ++
  [.thread t₀ {}, .thread t₀ {}, .thread t₀ {}] ++
  [.call t₂ (.wakeUp r₀) {}, .thread t₂ {}, .thread t₂ {}, .thread t₂ {}] ++ [.worker 0 {}]

theorem primeRun_primed {t₀ t₁ t₂ : τ} (h₁ : t₁ ≠ t₀) (h₂ : t₂ ≠ t₀) (h₃ : t₂ ≠ t₁) {r₀ r : UInt32}
    (a : α) (cb : Option κ) (h₀ : r₀ ≠ 0) (hr : r ≠ r₀) :
    ∃ y, exec PoolSys.step PoolSys.start (primeRun t₀ t₁ t₂ r₀ r a cb) = some y ∧ y.Primed a cb r ∧
      ∀ u, u ≠ t₀ → u ≠ t₁ → u ≠ t₂ → y.threads u = .idle := by
  let b₀ := Submit.single r₀ a cb
  let b := Submit.single r a (none : Option κ)
  let p₀ : Pool τ α κ := start.pool
  let p₁ : Pool τ α κ := { p₀ with nextTaskId := p₀.nextTaskId + 1 }
  let p₂ : Pool τ α κ := { p₁ with nextTaskId := p₁.nextTaskId + 1 }
  let x₀ := p₀.createNode t₀ b₀ 0 a
  let x := p₁.createNode t₁ b 0 a
  let p₃ : Pool τ α κ := { p₂.setWorker 0 ((p₂.workers 0).workerQueuePush x) with
    hist := { p₂.hist with attached := p₂.hist.attached ++ [(t₁, 0, [x])] } }.insertReqContext (Pool.newContext t₁ b 0)
  let p₄ : Pool τ α κ := { p₃.setWorker 0 ((p₃.workers 0).workerQueuePush x₀) with
    hist := { p₃.hist with attached := p₃.hist.attached ++ [(t₀, 0, [x₀])] } }.insertReqContext (Pool.newContext t₀ b₀ 0)
  let p₅ : Pool τ α κ := { p₄.setWorker 0 { p₄.workers 0 with pendingReq := r₀ } with
    hist := { p₄.hist with woken := p₄.hist.woken ++ [(t₂, r₀)] } }
  let y₁ : PoolSys τ α κ := { (start : PoolSys τ α κ) with pool := p₁ }.setThread t₀ (.attach b₀ 0 [x₀])
  let y₂ : PoolSys τ α κ := { y₁ with pool := p₂ }.setThread t₁ (.attach b 0 [x])
  let y₃ : PoolSys τ α κ := { y₂ with pool := p₃ }.setThread t₁ (.done (Pool.taskIds [x]))
  let y₄ : PoolSys τ α κ := { y₃ with pool := p₄ }.setThread t₀ (.done (Pool.taskIds [x₀]))
  let y₅ : PoolSys τ α κ := { y₄ with pool := p₅ }.setThread t₂ (.done (.int 0))
  have hctxs : ∀ k, p₀.ctxs k = [] := fun _ => rfl
  have hc₃ : ∀ k, p₃.ctxs k = if r = k then [Pool.newContext t₁ b 0] else [] := fun k =>
    Pool.insertReqContext_ctxs ..
  have hc₄ : ∀ k, p₄.ctxs k = if r₀ = k then Pool.newContext t₀ b₀ 0 :: p₃.ctxs k else p₃.ctxs k := fun k =>
    Pool.insertReqContext_ctxs ..
  have e₁ : exec PoolSys.step start [.call t₀ (.submitTask r₀ a cb) {}, .thread t₀ {}, .thread t₀ {}] = some y₁ :=
    choose_exec rfl rfl rfl rfl rfl
  have e₂ : exec PoolSys.step y₁ [.call t₁ (.submitTask r a none) {}, .thread t₁ {}, .thread t₁ {}] = some y₂ :=
    choose_exec (Function.update_of_ne h₁ ..) rfl rfl rfl rfl
  have e₃ : exec PoolSys.step y₂ [.thread t₁ {}, .thread t₁ {}, .thread t₁ {}] = some y₃ :=
    enqueue_exec (Function.update_self ..) rfl rfl
  have e₄ : exec PoolSys.step y₃ [.thread t₀ {}, .thread t₀ {}, .thread t₀ {}] = some y₄ := by
    refine enqueue_exec ?_ rfl ?_
    · simp [y₃, y₂, y₁, setThread_threads, h₁.symm, b₀]
    · rw [Pool.findReqContext_eq]
      show (p₃.ctxs r₀).head? = none
      rw [hc₃, if_neg hr]; rfl
  have e₅ : exec PoolSys.step y₄ [.call t₂ (.wakeUp r₀) {}, .thread t₂ {}, .thread t₂ {}, .thread t₂ {}] = some y₅ := by
    refine wake_exec (c := Pool.newContext t₀ b₀ 0) ?_ rfl ?_ rfl
    · simp [y₄, y₃, y₂, y₁, setThread_threads, h₂, h₃, start]
    · rw [Pool.findReqContext_eq]
      show (p₄.ctxs r₀).head? = _
      rw [hc₄, if_pos rfl]; rfl
  let w : WorkerThread τ α κ := { p₅.workers 0 with
    state := .busy, queue := [x], queueSize := (p₅.workers 0).queueSize - 1, pendingReq := 0, pc := .func x₀ }
  let y₆ : PoolSys τ α κ := { y₅ with
    pool := { p₅.setWorker 0 w with hist := { p₅.hist with taken := p₅.hist.taken ++ [(0, x₀)] } } }
  have e₆ : exec PoolSys.step y₅ [.worker 0 {}] = some y₆ := by
    have hpop : popFirst (fun task => task.requestId == r₀) (p₅.workers 0).queue = some (x₀, [x]) := by
      show popFirst _ [x, x₀] = _
      have hx : (x.requestId == r₀) = false := beq_eq_false_iff_ne.2 hr
      have hx₀ : (x₀.requestId == r₀) = true := beq_self_eq_true r₀
      simp [popFirst, hx, hx₀]
    have hpc : (p₅.workers 0).pc = .wait := rfl
    have hp : (p₅.workers 0).pendingReq = r₀ := rfl
    have hstep : p₅.workerStep 0 {} = some y₆.pool := by
      simp only [Pool.workerStep, hpc, Pool.loopHead, hp, if_neg h₀, Pool.setWorker_workers_self, WorkerThread.workerQueuePopByReq, hpop, Option.map_some, Pool.setWorker_setWorker]
      rfl
    simp [exec, step, show y₅.pool = p₅ from rfl, hstep, y₆]
  refine ⟨y₆, ?_, ⟨rfl, ⟨x₀, rfl, rfl, rfl⟩, Pool.newContext t₁ b 0, ?_, rfl⟩, fun u hu₀ hu₁ hu₂ => ?_⟩
  · exact exec_append.2 ⟨y₅, exec_append.2 ⟨y₄, exec_append.2 ⟨y₃, exec_append.2 ⟨y₂, exec_append.2 ⟨y₁, e₁, e₂⟩, e₃⟩, e₄⟩, e₅⟩, e₆⟩
  · rw [Pool.findReqContext_eq]
    show (p₄.ctxs r).head? = _
    rw [hc₄, if_neg (Ne.symm hr), hc₃, if_pos rfl]; rfl
  · simp [y₆, y₅, y₄, y₃, y₂, y₁, setThread_threads, hu₀, hu₁, hu₂, start]

end PoolSys

/-! ### Runs of the pool in which nobody is inside a section -/

namespace LockSys
variable {σ α κ : Type} [DecidableEq σ] {client : Client α κ}

/-- The mutexes held between two sections. -/
def keptBy (p : Pool (Party × Nat) α κ) : Mutex σ → Option Party
  | .worker i => if (p.workers i).mutexFree then none else some (.worker i)
  | _ => none

/-- The pool `y` between two sections. -/
def lift (y : PoolSys (Party × Nat) α κ) (call : Party → Option Nat) : LockSys σ α κ where
  sys := y
  call := call
  sync _ := none
  holder := keptBy y.pool
  inside _ := false

/-- A state the code of `client` can bring the pool to. -/
def Reach (client : Client α κ) (s : LockSys σ α κ) : Prop :=
  ∃ as, Along step (Permits client) start as ∧ exec step start as = some s

theorem Reach.step {s s' : LockSys σ α κ} {a : LockAct σ α κ} (h : Reach client s) (ha : Permits client s a)
    (hs : s.step a = some s') : Reach client s' := by
  obtain ⟨as, hal, he⟩ := h
  exact ⟨as ++ [a], hal.snoc he ha, exec_snoc.2 ⟨s, he, hs⟩⟩

/-- The thread has locked the mutex of its section, if it needs one. -/
def locked (s : LockSys σ α κ) (x : Party) : LockSys σ α κ :=
  match s.next x with
  | some m => { s with holder := Function.update s.holder m (some x), inside := Function.update s.inside x true }
  | none => s

theorem locked_cases (s : LockSys σ α κ) (x : Party) : s.next x = none ∧ s.locked x = s ∨
    ∃ m, s.next x = some m ∧ s.locked x =
      { s with holder := Function.update s.holder m (some x), inside := Function.update s.inside x true } := by
  unfold locked
  cases hn : s.next x with
  | none => exact .inl ⟨rfl, rfl⟩
  | some m => exact .inr ⟨m, rfl, rfl⟩

@[simp] theorem locked_sys (s : LockSys σ α κ) (x : Party) : (s.locked x).sys = s.sys := by
  unfold locked; split <;> rfl

@[simp] theorem locked_call (s : LockSys σ α κ) (x : Party) : (s.locked x).call = s.call := by
  unfold locked; split <;> rfl

@[simp] theorem locked_sync (s : LockSys σ α κ) (x : Party) : (s.locked x).sync = s.sync := by
  unfold locked; split <;> rfl

theorem locked_ready (s : LockSys σ α κ) (x : Party) : (s.locked x).inside x = true ∨ (s.locked x).next x = none := by
  rcases s.locked_cases x with ⟨hn, hl⟩ | ⟨m, -, hl⟩
  · exact .inr (by rw [hl]; exact hn)
  · exact .inl (by rw [hl]; exact Function.update_self ..)

theorem unlock_locked {s : LockSys σ α κ} {x : Party} (hi : s.inside x = false)
    (hm : ∀ m, s.next x = some m → s.holder m = none) : (s.locked x).unlock x = s := by
  rcases s.locked_cases x with ⟨hn, hl⟩ | ⟨m, hn, hl⟩
  · rw [hl, unlock_of_next_none hn]
  · have hin : (s.locked x).inside x = true := by rw [hl]; exact Function.update_self ..
    have hnext : (s.locked x).next x = some m := by rw [hl]; exact hn
    unfold unlock
    rw [hin, hnext, hl]
    have hh : Function.update (Function.update s.holder m (some x)) m none = s.holder := by
      rw [Function.update_idem, ← hm m hn, Function.update_eq_self]
    have hins : Function.update (Function.update s.inside x true) x false = s.inside := by
      rw [Function.update_idem, ← hi, Function.update_eq_self]
    simp only [hh, hins]

theorem Reach.lock {s : LockSys σ α κ} (h : Reach client s) {x : Party} (hi : s.inside x = false)
    (hm : ∀ m, s.next x = some m → s.holder m = none) : Reach client (s.locked x) := by
  rcases s.locked_cases x with ⟨-, hl⟩ | ⟨m, hn, hl⟩
  · rw [hl]; exact h
  · rw [hl]
    refine h.step (a := .lock x) (by trivial) ?_
    simp only [LockSys.step, hi, hn, hm m hn]

omit [DecidableEq σ] in
theorem keptBy_eq_none {p : Pool (Party × Nat) α κ} {m : Mutex σ}
    (h : ∀ i, m = .worker i → (p.workers i).mutexFree = true) : keptBy p m = none := by
  cases m with
  | worker i => exact if_pos (h i rfl)
  | _ => rfl

omit [DecidableEq σ] in
theorem keptBy_congr {p p' : Pool (Party × Nat) α κ}
    (h : ∀ i, (p'.workers i).mutexFree = (p.workers i).mutexFree) : keptBy (σ := σ) p' = keptBy p := by
  funext m
  cases m with
  | worker i => simp only [keptBy, h i]
  | _ => rfl

theorem run_call {s : LockSys σ α κ} {y : PoolSys (Party × Nat) α κ} {x : Party} {k : Nat} {o : Oracle}
    (hy : s.sync x = none) (hk : s.call x = some k) (hx : s.inside x = true ∨ s.next x = none)
    (hs : s.sys.step (.thread (x, k) o) = some y) : s.run x o = some { s.unlock x with sys := y } := by
  simp only [run, hy, hk]
  rw [if_pos (hx.imp id .inl), hs]
  rfl

theorem run_worker {s : LockSys σ α κ} {y : PoolSys (Party × Nat) α κ} {i : Fin 64} {o : Oracle}
    (hy : s.sync (.worker i) = none) (hk : s.call (.worker i) = none)
    (hx : s.inside (.worker i) = true ∨ s.next (.worker i) = none) (hs : s.sys.step (.worker i o) = some y) :
    s.run (.worker i) o = some ((s.unlock (.worker i)).keep i y) := by
  simp only [run, hy, hk]
  rw [if_pos hx, hs]
  rfl

omit [DecidableEq σ] in
theorem threadStep_mutexFree {p p' : Pool (Party × Nat) α κ} {t : Party × Nat} {o : Oracle}
    {pc pc' : Pc (Party × Nat) α κ} {i : Fin 64} (h : p.threadStep t o pc = some (p', pc'))
    (hm : pc.mutex (σ := σ) = some (.worker i)) : (p.workers i).mutexFree = true := by
  cases pc with
  | select b nodes j best minLoad =>
    obtain rfl : j = i := by simpa [Pc.mutex] using hm
    simp only [Pool.threadStep] at h
    split at h
    · assumption
    · cases h
  | attach b j nodes =>
    obtain rfl : j = i := by simpa [Pc.mutex] using hm
    simp only [Pool.threadStep] at h
    split at h
    · cases h
    · rename_i hfree
      simpa using hfree
  | wakeSet r j =>
    obtain rfl : j = i := by simpa [Pc.mutex] using hm
    simp only [Pool.threadStep] at h
    split at h
    · assumption
    · cases h
  | cancelQueue r ctx j =>
    obtain rfl : j = i := by simpa [Pc.mutex] using hm
    simp only [Pool.threadStep] at h
    split at h
    · cases h
    · rename_i hfree
      simpa using hfree
  | _ => cases hm

theorem Reach.thread {y y' : PoolSys (Party × Nat) α κ} {call : Party → Option Nat} {x : Party} {k : Nat}
    {o : Oracle} (h : Reach client (lift (σ := σ) y call)) (hk : call x = some k)
    (hs : y.step (.thread (x, k) o) = some y') : Reach client (lift (σ := σ) y' call) := by
  obtain ⟨⟨p, pc⟩, hp, rfl⟩ := Option.map_eq_some_iff.1 hs
  have hm : ∀ m, (lift (σ := σ) y call).next x = some m → (lift y call).holder m = none := by
    intro m hn
    rw [next_of_call rfl hk] at hn
    refine keptBy_eq_none fun i hi => ?_
    subst hi
    exact threadStep_mutexFree hp hn
  have hfree : ∀ i, (p.workers i).mutexFree = (y.pool.workers i).mutexFree := fun i => by
    unfold WorkerThread.mutexFree
    rw [(Pool.threadStep_worker (Pool.threadStep_cases hp) i).1]
  refine (h.lock rfl hm).step (a := .run x o) (by trivial) ?_
  refine (run_call (by simp [lift]) (by simpa [lift] using hk) (locked_ready ..) (by simpa [lift] using hs)).trans ?_
  rw [unlock_locked rfl hm]
  simp only [lift, PoolSys.setThread_pool, keptBy_congr hfree]

theorem Reach.worker {y y' : PoolSys (Party × Nat) α κ} {call : Party → Option Nat} {i : Fin 64} {o : Oracle}
    (h : Reach client (lift (σ := σ) y call)) (hk : call (.worker i) = none)
    (hs : y.step (.worker i o) = some y') : Reach client (lift (σ := σ) y' call) := by
  obtain ⟨p, hp, rfl⟩ := Option.map_eq_some_iff.1 hs
  have hm : ∀ m, (lift (σ := σ) y call).next (.worker i) = some m → (lift y call).holder m = none := by
    intro m hn
    rw [next_worker rfl hk] at hn
    refine keptBy_eq_none fun j hj => ?_
    subst hj
    change (y.pool.workers i).pc.mutex i = some (.worker j) at hn
    cases hpc : (y.pool.workers i).pc with
    | wait =>
      rw [hpc] at hn
      obtain rfl : i = j := by simpa [WorkerPc.mutex] using hn
      simp [WorkerThread.mutexFree, hpc]
    | _ => rw [hpc] at hn; cases hn
  refine (h.lock rfl hm).step (a := .run (.worker i) o) (by trivial) ?_
  refine (run_worker (by simp [lift]) (by simpa [lift] using hk) (locked_ready ..) (by simpa [lift] using hs)).trans ?_
  rw [unlock_locked rfl hm]
  have hkept : Function.update (keptBy (σ := σ) y.pool) (.worker i)
      (if (p.workers i).mutexFree then none else some (.worker i)) = keptBy p := by
    funext m
    rw [Function.update_apply]
    split
    · rename_i hmi
      rw [hmi]; rfl
    · rename_i hmi
      cases m with
      | worker j =>
        have hji : j ≠ i := fun e => hmi (congrArg Mutex.worker e)
        simp only [keptBy, Pool.workers_of_ne (Pool.workerStep_cases hp) hji]
      | _ => rfl
  simp only [lift, keep, hkept]

/-- The first call of thread `x`. -/
theorem Reach.call {y : PoolSys (Party × Nat) α κ} {call : Party → Option Nat} {x : Party} {c : Call α κ}
    {o : Oracle} (h : Reach client (lift (σ := σ) y call)) (hx : (lift (σ := σ) y call).atLarge x = true)
    (hc : Permits client (lift (σ := σ) y call) (.call x 0 c o)) (ht : y.threads (x, 0) = .idle) :
    Reach client (lift (σ := σ) (y.setThread (x, 0) (PoolSys.enter y.pool o c)) (Function.update call x (some 0))) := by
  refine h.step hc ?_
  simp only [LockSys.step]
  rw [if_pos hx]
  simp only [lift, PoolSys.step, ht]
  rfl

/-- Every caller makes one call, and no worker makes any. -/
def Outside : Act (Party × Nat) α κ → Prop
  | .call (.caller _, 0) _ _ | .thread (.caller _, 0) _ | .worker .. => True
  | _ => False

/-- The calls of a run from outside: once made, a call is not left. -/
def callOf (y : PoolSys (Party × Nat) α κ) : Party → Option Nat
  | .caller n => match y.threads (.caller n, 0) with
    | .idle => none
    | _ => some 0
  | .worker _ => none

theorem callOf_ne_idle {y : PoolSys (Party × Nat) α κ} {n : Nat} (h : y.threads (.caller n, 0) ≠ .idle) :
    callOf y (.caller n) = some 0 := by
  simp only [callOf]

theorem callOf_setThread {y : PoolSys (Party × Nat) α κ} {n : Nat} {pc : Pc (Party × Nat) α κ} (h : pc ≠ .idle)
    (p : Pool (Party × Nat) α κ) :
    callOf ({ y with pool := p }.setThread (.caller n, 0) pc) = Function.update (callOf y) (.caller n) (some 0) := by
  funext x
  rw [Function.update_apply]
  cases x with
  | worker i => rfl
  | caller j =>
    by_cases hj : j = n
    · subst hj
      simpa using callOf_ne_idle (by simpa [PoolSys.setThread_threads] using h)
    · have hne : ((Party.caller j, 0) : Party × Nat) ≠ (.caller n, 0) := fun e =>
        hj (Party.caller.inj (congrArg Prod.fst e))
      simp only [callOf, PoolSys.setThread_threads, if_neg hne, Party.caller.injEq, if_neg hj]

theorem Reach.exec {as : List (Act (Party × Nat) α κ)} {y y' : PoolSys (Party × Nat) α κ}
    (h : Reach client (lift (σ := σ) y (callOf y))) (has : ∀ a ∈ as, Outside a)
    (he : Lts.exec PoolSys.step y as = some y') : Reach client (lift (σ := σ) y' (callOf y')) := by
  refine exec_inv (I := fun y => Reach client (lift (σ := σ) y (callOf y)))
    (fun y a y' hi ha (hs : PoolSys.step y a = some y') => ?_) h (Along.of_forall has) he
  cases PoolSys.step_cases hs with
  | call t c o ht =>
    rcases t with ⟨n | i, _ | k⟩ <;> try cases ha
    have hk : callOf y (.caller n) = none := by simp only [callOf, ht]
    rw [callOf_setThread (y := y) PoolSys.enter_ne_idle]
    exact hi.call (by simp [atLarge, lift, hk]) trivial ht
  | thread t o p pc hp =>
    rcases t with ⟨n | i, _ | k⟩ <;> try cases ha
    have hk : callOf y (.caller n) = some 0 := callOf_ne_idle fun e => by
      rw [e] at hp
      cases hp
    rw [callOf_setThread (Pool.threadStep_ne_idle hp), ← hk, Function.update_eq_self]
    exact hi.thread hk hs
  | worker i o p hp => exact hi.worker rfl hs

/-! ### A call of the code that worker 0 runs -/

omit [DecidableEq σ] in
theorem stuck {y : PoolSys (Party × Nat) α κ} {call : Party → Option Nat} (hk : call (.worker 0) = some 0)
    (hm : (y.threads (.worker 0, 0)).mutex (σ := σ) = some (.worker 0))
    (hb : (y.pool.workers 0).mutexFree = false) : (lift (σ := σ) y call).locks.Deadlocked := by
  refine Locks.deadlocked_of_holds (x := .worker 0) (m := .worker 0) ?_ ?_
  · exact (next_of_call rfl hk).trans hm
  · exact if_neg (by simp [hb])

/-- Any code, and any request bound to the worker that runs it. -/
theorem Reach.code [Inhabited α] (client : Client α κ) (code : Code α κ) (r : UInt32) :
    ∃ y, Reach client (lift (σ := σ) y (callOf y)) ∧ (y.pool.workers 0).pc.code? = some code ∧
      y.pool.isRunning = true ∧ (∃ c, y.pool.findReqContext r = some c ∧ c.workerIdx = 0) ∧
      y.threads (.worker 0, 0) = .idle := by
  obtain ⟨r₀, h₀, hr⟩ : ∃ r₀ : UInt32, r₀ ≠ 0 ∧ r ≠ r₀ := by
    by_cases hr : r = 1
    · exact ⟨2, by decide, by rw [hr]; decide⟩
    · exact ⟨1, by decide, hr⟩
  have hprime : ∀ (a : α) (cb : Option κ), ∃ y, Reach client (lift (σ := σ) y (callOf y)) ∧ y.Primed a cb r ∧
      y.threads (.worker 0, 0) = .idle := by
    intro a cb
    obtain ⟨y, he, hy, hidle⟩ := PoolSys.primeRun_primed (show ((Party.caller 1, 0) : Party × Nat) ≠ (.caller 0, 0) by
      decide) (show ((Party.caller 2, 0) : Party × Nat) ≠ (.caller 0, 0) by decide) (by decide) a cb h₀ hr
    refine ⟨y, ?_, hy, hidle _ (by decide) (by decide) (by decide)⟩
    refine Reach.exec ⟨[], trivial, ?_⟩ (by simp [PoolSys.primeRun, Outside]) he
    have hkept : keptBy (σ := σ) (PoolSys.start : PoolSys (Party × Nat) α κ).pool = fun _ => none := by
      funext m
      exact keptBy_eq_none fun _ _ => rfl
    have hcall : callOf (PoolSys.start : PoolSys (Party × Nat) α κ) = fun _ => none := by
      funext x
      cases x <;> rfl
    simp only [exec_nil, lift, hkept, hcall, start]
  cases code with
  | func f =>
    obtain ⟨y, hreach, ⟨hrun, ⟨task, hpc, rfl, -⟩, hctx⟩, hidle⟩ := hprime f none
    exact ⟨y, hreach, by rw [hpc]; rfl, hrun, hctx, hidle⟩
  | callback cb =>
    obtain ⟨y, hreach, ⟨hrun, ⟨task, hpc, -, hcb⟩, hctx⟩, hidle⟩ := hprime default (some cb)
    -- the task function returns
    let p : Pool (Party × Nat) α κ := { y.pool.setPc 0 (.complete task) with
      hist := { y.pool.hist with returned := y.pool.hist.returned ++ [task] } }
    have hstep : y.step (.worker 0 {}) = some { y with pool := p } := by
      simp only [PoolSys.step, Pool.workerStep, hpc, Option.map_some, p]
    have hpc' : (p.workers 0).pc = .complete task := congrArg WorkerThread.pc (Pool.setPc_workers_self ..)
    refine ⟨{ y with pool := p }, hreach.worker rfl hstep, ?_, hrun, hctx, hidle⟩
    rw [hpc']
    simp only [WorkerPc.code?, hcb, Option.map_some]

theorem thread_step {y : PoolSys (Party × Nat) α κ} {t : Party × Nat} {o : Oracle} {pc pc' : Pc (Party × Nat) α κ}
    {p : Pool (Party × Nat) α κ} (ht : y.threads t = pc) (h : y.pool.threadStep t o pc = some (p, pc')) :
    y.step (.thread t o) = some ({ y with pool := p }.setThread t pc') := by
  simp only [PoolSys.step, ht, h, Option.map_some]

/-- Code that may make a call past its argument checks can bring the worker it runs on to lock its own mutex. -/
theorem deadlocked_of_locksWorker [Inhabited α] {code : Code α κ} {c : Call α κ} (hc : client code c)
    (hl : c.locksWorker = true) : ∃ s : LockSys σ α κ, Reach client s ∧ s.locks.Deadlocked := by
  obtain ⟨r, hr⟩ : ∃ r, ∀ r', c = .wakeUp r' ∨ c = .cancel r' → r' = r := by
    cases c with
    | wakeUp r => exact ⟨r, fun r' h => by simpa [eq_comm] using h⟩
    | cancel r => exact ⟨r, fun r' h => by simpa [eq_comm] using h⟩
    | _ => exact ⟨0, fun r' h => by simp at h⟩
  obtain ⟨y, hreach, hcode, hrun, ⟨x, hx, hidx⟩, hidle⟩ := Reach.code (σ := σ) client code r
  have hbusy : (y.pool.workers 0).mutexFree = false := by
    unfold WorkerThread.mutexFree
    cases hpc : (y.pool.workers 0).pc with
    | wait | exited => rw [hpc] at hcode; cases hcode
    | _ => rfl
  let t : Party × Nat := (.worker 0, 0)
  let call := Function.update (callOf y) (.worker 0) (some 0)
  have hk : call (.worker 0) = some 0 := Function.update_self ..
  have hcall := hreach.call (x := .worker 0) (c := c) (o := {}) (by simp [atLarge, lift, callOf, hcode])
    ⟨code, hcode, hc⟩ hidle
  have hthread : ∀ (z : PoolSys (Party × Nat) α κ) (pc : Pc (Party × Nat) α κ), (z.setThread t pc).threads t = pc :=
    fun z pc => (PoolSys.setThread_threads ..).trans (if_pos rfl)
  cases c with
  | submitTask r₁ a cb =>
    let b := Submit.single r₁ a cb
    have henter : PoolSys.enter y.pool {} (.submitTask r₁ a cb) = .create b none [] := if_pos hrun
    have hcreate : y.pool.threadStep t {} (.create b none []) =
        some ({ y.pool with nextTaskId := y.pool.nextTaskId + 1 },
          .select b [y.pool.createNode t b 0 a] 0 none 0xFFFFFFFF) := rfl
    rw [henter] at hcall
    refine ⟨_, hcall.thread hk (thread_step (hthread ..) hcreate), stuck hk ?_ hbusy⟩
    rw [hthread]; rfl
  | submitBatch b =>
    obtain ⟨b', hb'⟩ := Option.isSome_iff_exists.1 hl
    refine ⟨_, hcall, stuck hk ?_ hbusy⟩
    rw [hthread]
    simp [PoolSys.enter, hrun, hb', Pc.mutex]
  | wakeUp r₁ =>
    obtain rfl := hr r₁ (.inl rfl)
    have hfind : y.pool.threadStep t {} (.wakeFind r₁) = some (y.pool, .wakeRead r₁ x.owner) := by
      simp [Pool.threadStep, hx]
    have hread : y.pool.threadStep t {} (.wakeRead r₁ x.owner) = some (y.pool, .wakeSet r₁ 0) := by
      simp [Pool.threadStep, Pool.deref_of_find hx, hidx]
    have hfound := hcall.thread hk (thread_step (hthread ..) hfind)
    refine ⟨_, hfound.thread hk (thread_step (hthread ..) hread), stuck hk ?_ hbusy⟩
    rw [hthread]; rfl
  | cancel r₁ =>
    obtain rfl := hr r₁ (.inr rfl)
    have henter : PoolSys.enter y.pool {} (.cancel r₁) = .cancelFind r₁ := if_pos hrun
    have hfind : y.pool.threadStep t {} (.cancelFind r₁) = some (y.pool, .cancelRead r₁ x.owner) := by
      simp [Pool.threadStep, hx]
    have hread : y.pool.threadStep t {} (.cancelRead r₁ x.owner) = some (y.pool, .cancelQueue r₁ x.owner 0) := by
      simp [Pool.threadStep, Pool.deref_of_find hx, hidx]
    rw [henter] at hcall
    have hfound := hcall.thread hk (thread_step (hthread ..) hfind)
    refine ⟨_, hfound.thread hk (thread_step (hthread ..) hread), stuck hk ?_ hbusy⟩
    rw [hthread]; rfl

/-- Whatever the interleaving, the threads do not wait for each other in a cycle if and only if the code that
workers run makes no call that passes its argument checks. -/
theorem deadlockFree_iff [Inhabited α] {client : Client α κ} :
    (∀ as s, Along step (Permits client) start as → exec step start as = some (s : LockSys σ α κ) →
      ¬s.locks.Deadlocked) ↔ ∀ code c, client code c → c.locksWorker = false := by
  constructor
  · intro h code c hc
    by_contra hl
    obtain ⟨s, ⟨as, hal, he⟩, hdead⟩ := deadlocked_of_locksWorker (σ := σ) hc (by simpa using hl)
    exact h as s hal he hdead
  · intro h as s hal he
    have htame : Tame s := exec_inv (I := Tame) (fun u a u' hi ha (hs : LockSys.step u a = some u') => hi.step h ha hs)
      ⟨Held.start, fun i k hk => (by cases hk)⟩ hal he
    exact htame.ordered.not_deadlocked

/-- The task of request 7 wakes request 7. -/
def selfWakeRun : List (LockAct Unit Unit Unit) :=
  .call (.caller 0) 0 (.submitTask 7 () none) {} ::
    (List.replicate 5 [.lock (.caller 0), .run (.caller 0) {}]).flatten ++
  [.call (.caller 1) 0 (.wakeUp 7) {}, .lock (.caller 1), .run (.caller 1) {}, .run (.caller 1) {},
    .lock (.caller 1), .run (.caller 1) {}, .lock (.worker 0), .run (.worker 0) {},
    .call (.worker 0) 0 (.wakeUp 7) {}, .lock (.worker 0), .run (.worker 0) {}, .run (.worker 0) {}]

def selfWaked : LockSys Unit Unit Unit := last step start selfWakeRun (by decide +kernel)

theorem selfWaked_deadlocked : exec step start selfWakeRun = some selfWaked ∧ selfWaked.locks.Deadlocked := by
  refine ⟨exec_last _, Locks.deadlocked_of_holds (x := .worker 0) (m := .worker 0) ?_ ?_⟩
  · decide +kernel
  · decide +kernel

end LockSys
end OsTransport
