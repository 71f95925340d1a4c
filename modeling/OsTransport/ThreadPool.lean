import Mathlib
import OsTransport.Lib.PopFirst

/-!
# The thread pool (`os_transport_thread_pool.c`)

The data of a pool and the bodies of its mutex-protected sections. The task queue of a worker is
the list of the tasks linked from `queue_head`; a chain of `req_hash` is the list of its contexts.
`τ` names the calls made on the pool, `α` is a user function with its argument, `κ` a callback with
its user data (`none` is the NULL callback).

A call makes at most one `RequestContext` and numbers the tasks it makes, so the call's name and
that number stand for the addresses of these objects: a context pointer kept across sections is the
pair of its request id and its `owner`, and it dangles once no context of the table matches.
-/

namespace OsTransport

-- the numerals of worker indices and, in runs on fixed inputs, of calls and bytes
scoped instance neZero_sixtyFour : NeZero 64 := ⟨by decide⟩
scoped instance neZero_four : NeZero 4 := ⟨by decide⟩
scoped instance neZero_three : NeZero 3 := ⟨by decide⟩
scoped instance neZero_two : NeZero 2 := ⟨by decide⟩
scoped instance neZero_one : NeZero 1 := ⟨by decide⟩

/-- `WorkerState`. -/
inductive WorkerState
  | init | idle | busy | exit
deriving DecidableEq, Repr

/-- `InternalTask`, the argument of `internal_task_wrapper`. -/
structure InternalTask (α κ : Type) where
  userArg : α
  completeCb : Option κ
  taskId : UInt64
  requestId : UInt32
  success : Bool
deriving DecidableEq

/-- `ThreadPoolTask` as the pool queues it: `task_func` is `internal_task_wrapper`. The call that
made the task and its place in the array it was submitted in identify it. -/
structure ThreadPoolTask (τ α κ : Type) where
  taskId : UInt64
  requestId : UInt32
  taskArg : InternalTask α κ
  owner : τ
  index : Nat
deriving DecidableEq

/-- `RequestContext`; `owner` is the call that made it. -/
structure RequestContext (τ κ : Type) where
  requestId : UInt32
  workerIdx : Fin 64
  pendingCount : Int32
  batchCb : Option κ
  owner : τ
deriving DecidableEq

/-- Where a worker thread stands in `worker_routine`. Its own mutex is free in `wait` and `exited`
only; the task and the pointers a later section uses are kept. -/
inductive WorkerPc (τ α κ : Type)
  /-- in `pthread_cond_wait` -/
  | wait
  /-- `internal_task_wrapper` is running `user_func` -/
  | func (task : ThreadPoolTask τ α κ)
  /-- `user_func` has returned, `complete_cb` is next -/
  | complete (task : ThreadPoolTask τ α κ)
  /-- before `find_req_context` -/
  | find (task : ThreadPoolTask τ α κ)
  /-- before `pending_count--` through the context found -/
  | dec (task : ThreadPoolTask τ α κ) (ctx : τ)
  /-- `pending_count` was seen to be 0, `batch_cb` is next -/
  | batch (task : ThreadPoolTask τ α κ) (cb : Option κ)
  /-- before `remove_req_context` -/
  | remove (task : ThreadPoolTask τ α κ)
  /-- before `free(task)` -/
  | finish (task : ThreadPoolTask τ α κ)
  | exited
deriving DecidableEq

/-- `WorkerThread`, with the program counter of its thread. -/
structure WorkerThread (τ α κ : Type) where
  state : WorkerState
  queue : List (ThreadPoolTask τ α κ)
  queueSize : UInt32
  pendingReq : UInt32
  pc : WorkerPc τ α κ
deriving DecidableEq

/-- What has happened so far, oldest first. No step reads it. -/
structure History (τ α κ : Type) where
  /-- task chains attached to a queue, by the call that attached them -/
  attached : List (τ × Fin 64 × List (ThreadPoolTask τ α κ)) := []
  /-- ids stored in a worker's `pending_req`, by the call that stored them -/
  woken : List (τ × UInt32) := []
  /-- tasks popped for execution -/
  taken : List (Fin 64 × ThreadPoolTask τ α κ) := []
  /-- tasks whose `user_func` has returned -/
  returned : List (ThreadPoolTask τ α κ) := []
  /-- tasks unlinked by a cancel of the given id -/
  cancelled : List (Fin 64 × UInt32 × List (ThreadPoolTask τ α κ)) := []
  /-- `complete_cb` calls: task id, `success`, callback -/
  completeCbs : List (UInt64 × Bool × κ) := []
  /-- `batch_cb` calls: the request id of the task, `success`, callback -/
  batchCbs : List (UInt32 × Bool × κ) := []

abbrev reqHashSize : Nat := 1024

/-- `struct _ThreadPool`. -/
structure Pool (τ α κ : Type) where
  workers : Fin 64 → WorkerThread τ α κ
  isRunning : Bool
  isDestroying : Bool
  nextTaskId : UInt64
  reqHash : Fin reqHashSize → List (RequestContext τ κ)
  hist : History τ α κ

def hashReqId (reqId : UInt32) : Fin reqHashSize :=
  Fin.ofNat reqHashSize (reqId ^^^ (reqId >>> 20)).toNat

namespace WorkerThread
variable {τ α κ : Type} (w : WorkerThread τ α κ)

/-- `pthread_mutex_lock(&worker->mutex)` by another thread goes through. -/
def mutexFree : Bool :=
  match w.pc with
  | .wait | .exited => true
  | _ => false

/-- `worker_queue_push`, the node allocated. -/
def workerQueuePush (task : ThreadPoolTask τ α κ) : WorkerThread τ α κ :=
  { w with queue := w.queue ++ [task], queueSize := w.queueSize + 1 }

/-- `attach_nodes_to_worker`; `created` is the length of the chain. -/
def attachNodesToWorker (nodes : List (ThreadPoolTask τ α κ)) (created : UInt32) :
    WorkerThread τ α κ :=
  { w with queue := w.queue ++ nodes, queueSize := w.queueSize + created }

/-- `worker_queue_pop_by_req`: the first task of the request, and the worker without it. -/
def workerQueuePopByReq (reqId : UInt32) :
    Option (ThreadPoolTask τ α κ × WorkerThread τ α κ) :=
  (popFirst (fun task => task.requestId == reqId) w.queue).map fun (task, rest) =>
    (task, { w with queue := rest, queueSize := w.queueSize - 1 })

/-- `cancel_in_worker_queue`: the tasks removed, and the worker without them. -/
def cancelInWorkerQueue (reqId : UInt32) :
    List (ThreadPoolTask τ α κ) × WorkerThread τ α κ :=
  let removed := w.queue.filter fun task => task.requestId == reqId
  (removed, { w with
    queue := w.queue.filter fun task => !(task.requestId == reqId)
    queueSize := w.queueSize - UInt32.ofNat removed.length })

end WorkerThread

namespace Pool
variable {τ α κ : Type} [DecidableEq τ] (p : Pool τ α κ)

def setWorker (i : Fin 64) (w : WorkerThread τ α κ) : Pool τ α κ :=
  { p with workers := Function.update p.workers i w }

def setChain (h : Fin reqHashSize) (chain : List (RequestContext τ κ)) : Pool τ α κ :=
  { p with reqHash := Function.update p.reqHash h chain }

/-- `find_req_context`. -/
def findReqContext (reqId : UInt32) : Option (RequestContext τ κ) :=
  (p.reqHash (hashReqId reqId)).find? fun ctx => ctx.requestId == reqId

/-- `insert_req_context`. -/
def insertReqContext (ctx : RequestContext τ κ) : Pool τ α κ :=
  p.setChain (hashReqId ctx.requestId) (ctx :: p.reqHash (hashReqId ctx.requestId))

/-- `remove_req_context`, and the unlinking in `update_context_after_cancel`. -/
def removeReqContext (reqId : UInt32) : Pool τ α κ :=
  p.setChain (hashReqId reqId)
    ((p.reqHash (hashReqId reqId)).eraseP fun ctx => ctx.requestId == reqId)

/-- Whether `ctx` is what the pointer `(reqId, owner)` points to. -/
def pointsTo (reqId : UInt32) (owner : τ) (ctx : RequestContext τ κ) : Bool :=
  ctx.requestId == reqId && ctx.owner == owner

/-- The context behind a pointer, `none` when it has been freed. -/
def deref (reqId : UInt32) (owner : τ) : Option (RequestContext τ κ) :=
  (p.reqHash (hashReqId reqId)).find? (pointsTo reqId owner)

/-- `ctx->pending_count += d` through a pointer. When it dangles, nothing is written here: what the write then
does to whatever has taken the memory is part of `PoolSys.memStep`. -/
def addPending (reqId : UInt32) (owner : τ) (d : Int32) : Pool τ α κ :=
  p.setChain (hashReqId reqId) ((p.reqHash (hashReqId reqId)).map fun ctx =>
    if pointsTo reqId owner ctx then { ctx with pendingCount := ctx.pendingCount + d } else ctx)

/-- The contexts of a request in the table, in chain order. -/
def ctxs (reqId : UInt32) : List (RequestContext τ κ) :=
  (p.reqHash (hashReqId reqId)).filter fun ctx => ctx.requestId == reqId

/-- The queued tasks of a request on one worker. -/
def queued (i : Fin 64) (reqId : UInt32) : List (ThreadPoolTask τ α κ) :=
  (p.workers i).queue.filter fun task => task.requestId == reqId

/-- `thread_pool_init`: every worker was created and waits for its first wake-up. -/
def threadPoolInit : Pool τ α κ where
  workers _ := { state := .idle, queue := [], queueSize := 0, pendingReq := 0, pc := .wait }
  isRunning := false
  isDestroying := false
  nextTaskId := 1
  reqHash _ := []
  hist := {}

/-- `thread_pool_start` on a pool that is not running. -/
def threadPoolStart : Pool τ α κ := { p with isRunning := true }

end Pool

end OsTransport
