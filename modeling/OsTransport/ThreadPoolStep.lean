import OsTransport.ThreadPool

/-!
# The thread pool as a system of threads

A `PoolSys` is a pool with the calls made on it. One step is one mutex-protected section of one
thread, with the reads that thread makes outside any mutex as steps of their own; a section that
needs the mutex of a worker is blocked while that worker holds it, that is while it executes a task.
`pthread_cond_wait` may return at any time, so a waiting worker may always run its loop head again.
`Oracle` gives what a step does not decide: the outcome of its allocations and what a read through
a dangling context pointer yields. Such a read of `worker_idx` is taken to yield an index of the array:
any other value crashes the process and is no step. A write through such a pointer is left out here and
made in `PoolSys.memStep`; `thread_pool_submit_task` has its task id as soon as it has counted the task,
and reads it from the task later in a `World`.
-/

namespace OsTransport

/-- A submission past its argument checks. -/
structure Submit (α κ : Type) where
  /-- `thread_pool_submit_batch_tasks`, or `thread_pool_submit_task` -/
  batch : Bool
  requestId : UInt32
  /-- function and argument of each task, in array order -/
  args : List α
  completeCb : Option κ
  batchCb : Option κ
  args_ne : args ≠ []
  count_lt : args.length < 2 ^ 32
deriving DecidableEq

/-- The arguments of `thread_pool_submit_batch_tasks`; `task_count` is a `uint32_t`. -/
structure Batch (α κ : Type) where
  tasks : List (UInt32 × α)
  completeCb : Option κ
  batchCb : Option κ
  count_lt : tasks.length < 2 ^ 32
deriving DecidableEq

/-- The checks of `validate_and_select_worker` on the task array. -/
def Batch.validate {α κ : Type} (b : Batch α κ) : Option (Submit α κ) :=
  match h : b.tasks with
  | [] => none
  | task :: rest =>
    if rest.all fun t => t.1 == task.1 then
      some { batch := true, requestId := task.1, args := b.tasks.map Prod.snd,
             completeCb := b.completeCb, batchCb := b.batchCb,
             args_ne := by simp [h], count_lt := by simpa using b.count_lt }
    else none

/-- The submission `thread_pool_submit_task` makes. -/
def Submit.single {α κ : Type} (requestId : UInt32) (arg : α) (completeCb : Option κ) :
    Submit α κ where
  batch := false
  requestId := requestId
  args := [arg]
  completeCb := completeCb
  batchCb := none
  args_ne := by simp
  count_lt := by simp

/-- `task_count`, and 1 for a single task. -/
def Submit.count {α κ : Type} (b : Submit α κ) : UInt32 := UInt32.ofNat b.args.length

/-- The public pool operations. -/
inductive Call (α κ : Type)
  | submitTask (requestId : UInt32) (arg : α) (completeCb : Option κ)
  | submitBatch (b : Batch α κ)
  | wakeUp (requestId : UInt32)
  | cancel (requestId : UInt32)
deriving DecidableEq

/-- What a call returns: task ids, NULL (or the task id 0), or an `int`. -/
inductive Ret
  | ids (taskIds : List UInt64)
  | null
  | int (n : Int)
deriving DecidableEq, Repr

/-- Where a call stands, with the locals its later sections use. -/
inductive Pc (τ α κ : Type)
  | idle
  /-- `select_best_worker` before it locks `workers[i]` -/
  | select (b : Submit α κ) (nodes : List (ThreadPoolTask τ α κ)) (i : Fin 64)
      (best : Option (Fin 64)) (minLoad : UInt32)
  /-- before the next task of the array is made; a batch has its worker already -/
  | create (b : Submit α κ) (worker : Option (Fin 64)) (nodes : List (ThreadPoolTask τ α κ))
  /-- before the tasks are attached to the worker's queue -/
  | attach (b : Submit α κ) (worker : Fin 64) (nodes : List (ThreadPoolTask τ α κ))
  /-- before `find_req_context` of the context update -/
  | findCtx (b : Submit α κ) (worker : Fin 64) (nodes : List (ThreadPoolTask τ α κ))
  /-- a context was found, `pending_count` is about to be raised -/
  | bump (b : Submit α κ) (nodes : List (ThreadPoolTask τ α κ)) (ctx : τ)
  /-- no context was found, one is about to be made and inserted -/
  | insert (b : Submit α κ) (worker : Fin 64) (nodes : List (ThreadPoolTask τ α κ))
  | wakeFind (reqId : UInt32)
  /-- before the read of `ctx->worker_idx` -/
  | wakeRead (reqId : UInt32) (ctx : τ)
  | wakeSet (reqId : UInt32) (worker : Fin 64)
  | cancelFind (reqId : UInt32)
  /-- before the read of `ctx->worker_idx` -/
  | cancelRead (reqId : UInt32) (ctx : τ)
  | cancelQueue (reqId : UInt32) (ctx : τ) (worker : Fin 64)
  | cancelUpdate (reqId : UInt32) (ctx : τ) (removed : UInt32)
  | done (ret : Ret)
deriving DecidableEq

/-- What the environment decides about a step. -/
structure Oracle where
  /-- the allocations of the step succeed -/
  ok : Bool := true
  /-- the allocation of the list node succeeds -/
  okNode : Bool := true
  /-- `worker_idx` as read through a dangling context pointer, when it is an index of the array -/
  idx : Fin 64 := 0
  /-- whether `pending_count` looks like 0 through a dangling context pointer -/
  zero : Bool := false
deriving DecidableEq, Repr

namespace Pool
variable {τ α κ : Type} [DecidableEq τ] (p : Pool τ α κ)

def setPc (i : Fin 64) (pc : WorkerPc τ α κ) : Pool τ α κ :=
  p.setWorker i { p.workers i with pc := pc }

/-- Where the loop of `worker_routine` puts a worker whose `pending_req` is 0. -/
def park (i : Fin 64) : Pool τ α κ :=
  if p.isDestroying then p.setWorker i { p.workers i with state := .exit, pc := .exited }
  else p.setPc i .wait

/-- The loop of `worker_routine` from its wait condition up to the call of `task_func`. -/
def loopHead (i : Fin 64) : Pool τ α κ :=
  let w := p.workers i
  if w.pendingReq = 0 then p.park i
  else
    let p := p.setWorker i { w with pendingReq := 0 }
    match (p.workers i).workerQueuePopByReq w.pendingReq with
    | none => p.park i
    | some (task, w) =>
      { p.setWorker i { w with state := .busy, pc := .func task } with
        hist := { p.hist with taken := p.hist.taken ++ [(i, task)] } }

/-- One section of worker `i`: the loop head, or the next part of `worker_process_task`. -/
def workerStep (i : Fin 64) (o : Oracle) : Option (Pool τ α κ) :=
  match (p.workers i).pc with
  | .wait => some (p.loopHead i)
  | .func task =>
    some { p.setPc i (.complete task) with
      hist := { p.hist with returned := p.hist.returned ++ [task] } }
  | .complete task =>
    some { p.setPc i (.find task) with
      hist := { p.hist with completeCbs := p.hist.completeCbs ++
        (task.taskArg.completeCb.map fun cb =>
          (task.taskArg.taskId, task.taskArg.success, cb)).toList } }
  | .find task =>
    match p.findReqContext task.requestId with
    | some ctx => some (p.setPc i (.dec task ctx.owner))
    | none => some (p.setPc i (.finish task))
  | .dec task ctx =>
    let p := p.addPending task.requestId ctx (-1)
    match p.deref task.requestId ctx with
    | some c =>
      if c.pendingCount = 0 then some (p.setPc i (.batch task c.batchCb))
      else some (p.setPc i (.finish task))
    | none =>
      if o.zero then some (p.setPc i (.remove task)) else some (p.setPc i (.finish task))
  | .batch task cb =>
    some { p.setPc i (.remove task) with
      hist := { p.hist with batchCbs := p.hist.batchCbs ++
        (cb.map fun cb => (task.requestId, true, cb)).toList } }
  | .remove task => some ((p.removeReqContext task.requestId).setPc i (.finish task))
  -- the mutex was held since `pending_req` was cleared, so the loop has nothing else to run
  | .finish _ => some ((p.setWorker i { p.workers i with state := .idle }).park i)
  | .exited => none

/-- `create_batch_node`, and the task `thread_pool_submit_task` makes. -/
def createNode (t : τ) (b : Submit α κ) (index : Nat) (arg : α) : ThreadPoolTask τ α κ where
  taskId := p.nextTaskId
  requestId := b.requestId
  taskArg :=
    { userArg := arg, completeCb := b.completeCb, taskId := p.nextTaskId,
      requestId := b.requestId, success := true }
  owner := t
  index := index

/-- After a task was made: the next one, or what the call does with all of them. -/
def afterCreate (b : Submit α κ) (worker : Option (Fin 64)) (nodes : List (ThreadPoolTask τ α κ)) :
    Pc τ α κ :=
  if nodes.length < b.args.length then .create b worker nodes
  else match worker with
    | some w => .attach b w nodes
    | none => .select b nodes 0 none 0xFFFFFFFF

/-- After `select_best_worker` returned a worker: a batch makes its tasks now. -/
def afterSelect (b : Submit α κ) (nodes : List (ThreadPoolTask τ α κ)) (worker : Fin 64) :
    Pc τ α κ :=
  if b.batch then .create b (some worker) [] else .attach b worker nodes

/-- One turn of the loop of `select_best_worker`, under the mutex of worker `i`. -/
def selectStep (b : Submit α κ) (nodes : List (ThreadPoolTask τ α κ)) (i : Fin 64)
    (best : Option (Fin 64)) (minLoad : UInt32) : Pc τ α κ :=
  let w := p.workers i
  if w.state = .idle ∧ w.queueSize = 0 then afterSelect b nodes i
  else
    let (best, minLoad) :=
      if w.state = .busy ∧ w.queueSize < minLoad then (some i, w.queueSize) else (best, minLoad)
    if h : i.val + 1 < 64 then .select b nodes ⟨i.val + 1, h⟩ best minLoad
    else match best with
      | some w => afterSelect b nodes w
      | none => .done .null

/-- The context `thread_pool_submit_task` or `update_batch_context` makes. -/
def newContext (t : τ) (b : Submit α κ) (worker : Fin 64) : RequestContext τ κ where
  requestId := b.requestId
  workerIdx := worker
  pendingCount := b.count.toInt32
  batchCb := if b.batch then b.batchCb else none
  owner := t

/-- What the submitter gets back, as long as the tasks are there when it reads their ids. -/
def taskIds (nodes : List (ThreadPoolTask τ α κ)) : Ret := .ids (nodes.map (·.taskId))

/-- One section of the call `t` standing at the given point. -/
def threadStep (t : τ) (o : Oracle) : Pc τ α κ → Option (Pool τ α κ × Pc τ α κ)
  | .idle => none
  | .select b nodes i best minLoad =>
    if (p.workers i).mutexFree then some (p, p.selectStep b nodes i best minLoad) else none
  | .create b worker nodes =>
    match b.args[nodes.length]? with
    | none => none
    | some arg =>
      if !o.ok then some (p, .done .null)
      else
        let q := { p with nextTaskId := p.nextTaskId + 1 }
        if b.batch && !o.okNode then some (q, .done .null)
        else some (q, afterCreate b worker (nodes ++ [p.createNode t b nodes.length arg]))
  | .attach b i nodes =>
    let w := p.workers i
    if !w.mutexFree then none
    else
      let hist := { p.hist with attached := p.hist.attached ++ [(t, i, nodes)] }
      if b.batch then
        some ({ p.setWorker i (w.attachNodesToWorker nodes b.count) with hist := hist },
          .findCtx b i nodes)
      else if !o.okNode then some (p, .done .null)
      else
        some ({ p.setWorker i (nodes.foldl WorkerThread.workerQueuePush w) with hist := hist },
          .findCtx b i nodes)
  | .findCtx b i nodes =>
    match p.findReqContext b.requestId with
    | some ctx => some (p, .bump b nodes ctx.owner)
    | none => some (p, .insert b i nodes)
  | .bump b nodes ctx =>
    some (p.addPending b.requestId ctx b.count.toInt32, .done (taskIds nodes))
  | .insert b i nodes =>
    if o.ok then some (p.insertReqContext (newContext t b i), .done (taskIds nodes))
    -- `update_batch_context` fails and is only logged; `thread_pool_submit_task` writes through NULL
    else if b.batch then some (p, .done (taskIds nodes))
    else none
  | .wakeFind r =>
    match p.findReqContext r with
    | some ctx => some (p, .wakeRead r ctx.owner)
    | none => some (p, .done (.int (-1)))
  | .wakeRead r ctx =>
    match p.deref r ctx with
    | some c => some (p, .wakeSet r c.workerIdx)
    | none => some (p, .wakeSet r o.idx)
  | .wakeSet r i =>
    if (p.workers i).mutexFree then
      some ({ p.setWorker i { p.workers i with pendingReq := r } with
        hist := { p.hist with woken := p.hist.woken ++ [(t, r)] } }, .done (.int 0))
    else none
  | .cancelFind r =>
    match p.findReqContext r with
    | some ctx => some (p, .cancelRead r ctx.owner)
    | none => some (p, .done (.int 0))
  | .cancelRead r ctx =>
    match p.deref r ctx with
    | some c => some (p, .cancelQueue r ctx c.workerIdx)
    | none => some (p, .cancelQueue r ctx o.idx)
  | .cancelQueue r ctx i =>
    if !(p.workers i).mutexFree then none
    else
      let (removed, w) := (p.workers i).cancelInWorkerQueue r
      let q := { p.setWorker i w with
        hist := { p.hist with cancelled := p.hist.cancelled ++ [(i, r, removed)] } }
      let n := UInt32.ofNat removed.length
      if 0 < n then some (q, .cancelUpdate r ctx n) else some (q, .done (.int 0))
  | .cancelUpdate r ctx n =>
    let q := p.addPending r ctx (-n.toInt32)
    let zero := match q.deref r ctx with
      | some c => c.pendingCount == 0
      | none => o.zero
    some (if zero then q.removeReqContext r else q, .done (.int n.toInt32.toInt))
  | .done _ => none

end Pool

/-- A pool and the calls made on it. -/
structure PoolSys (τ α κ : Type) where
  pool : Pool τ α κ
  threads : τ → Pc τ α κ

inductive Act (τ α κ : Type)
  /-- the call `t` is made -/
  | call (t : τ) (c : Call α κ) (o : Oracle)
  /-- the next section of call `t` -/
  | thread (t : τ) (o : Oracle)
  /-- the next section of a worker -/
  | worker (i : Fin 64) (o : Oracle)
deriving DecidableEq

namespace PoolSys
variable {τ α κ : Type} [DecidableEq τ]

/-- The checks a call makes before its first section. -/
def enter (p : Pool τ α κ) (o : Oracle) : Call α κ → Pc τ α κ
  | .submitTask r arg cb =>
    if p.isRunning then .create (Submit.single r arg cb) none [] else .done .null
  | .submitBatch b =>
    if !p.isRunning then .done .null
    else match b.validate with
      | none => .done .null
      | some b => if o.ok then .select b [] 0 none 0xFFFFFFFF else .done .null
  | .wakeUp r => .wakeFind r
  | .cancel r => if p.isRunning then .cancelFind r else .done (.int (-1))

def setThread (s : PoolSys τ α κ) (t : τ) (pc : Pc τ α κ) : PoolSys τ α κ :=
  { s with threads := Function.update s.threads t pc }

def step (s : PoolSys τ α κ) : Act τ α κ → Option (PoolSys τ α κ)
  | .call t c o =>
    match s.threads t with
    | .idle => some (s.setThread t (enter s.pool o c))
    | _ => none
  | .thread t o =>
    (s.pool.threadStep t o (s.threads t)).map fun (p, pc) => { s with pool := p }.setThread t pc
  | .worker i o => (s.pool.workerStep i o).map fun p => { s with pool := p }

/-- An initialised and started pool, before any call. -/
def start : PoolSys τ α κ where
  pool := Pool.threadPoolInit.threadPoolStart
  threads _ := .idle

end PoolSys

end OsTransport
