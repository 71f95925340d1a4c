import OsTransport.Chunks
import OsTransport.ThreadPoolStep

/-!
# The transport (`os_transport.c`)

Requests over one handle: `os_transport_send` and `os_transport_recv` with the task functions they hand
to the pool, `os_transport_wake_up_task` and `wait_and_free_sync`. `ρ` names the requests, `ψ` the calls
of `os_transport_wake_up_task`; `args` gives the arguments of each request. A `Sys` is a pool whose calls
are made by these functions, with what each request has come to. One step is one critical section, one
access to the memory of a request outside of any, or one call of URMA or CUDA.

`wait_and_free_sync` frees the task arguments, the chunk array and the sync object at once. What a task
function does after it has read freed memory is not followed here: the read is logged and the function
returns. `Sys.memStep` goes on with what has taken the memory.
-/

namespace OsTransport

/-- `task_type_t`. -/
inductive TaskType
  | send | recv
deriving DecidableEq

/-- The arguments of `os_transport_send` or `os_transport_recv`. -/
structure Request where
  type : TaskType
  /-- `local_src->addr` or `host_src->addr` -/
  src : UInt64
  /-- `remote_dst->addr` or `device_dst->dst` -/
  dst : UInt64
  len : UInt32
  /-- the id of the request in the pool of the handle: `server_key` of a send, `client_key` of a receive -/
  key : UInt32
  /-- `client_key` -/
  clientKey : UInt32

/-- `send_task_arg_t` or `recv_task_arg_t`. The sync object is named after its request, the pointer
`chunk_info` is a place in the request's chunk array. -/
structure TaskArg (ρ : Type) where
  sync : ρ
  chunkInfo : Nat
  isLastChunk : Bool
  info : UrmaInfo
deriving DecidableEq

namespace Request
variable {ρ : Type} (a : Request) (q : ρ)

/-- The `i`-th entry of the chunk array. -/
def chunk (i : Nat) : ChunkInfo := splitChunk a.src a.dst a.len i

/-- The task argument `register_send_tasks` makes for chunk `i`. -/
def sendTaskArg (i : Nat) : TaskArg ρ :=
  let last := i == chunksNum a.len - 1
  { sync := q, chunkInfo := i, isLastChunk := last,
    info := .write ⟨chunkUserData a.key (a.chunk i) i last, chunkUserData a.clientKey (a.chunk i) i last⟩ }

/-- The task argument `register_recv_tasks` makes for chunk `i`. -/
def recvTaskArg (i : Nat) : TaskArg ρ :=
  { sync := q, chunkInfo := i, isLastChunk := i == chunksNum a.len - 1, info := .recv a.key }

/-- The tasks registered: chunk 0 of a send is posted by the caller. -/
def taskArgs : List (TaskArg ρ) :=
  match a.type with
  | .send => (List.range (chunksNum a.len - 1)).map fun i => a.sendTaskArg q (i + 1)
  | .recv => (List.range (chunksNum a.len)).map fun i => a.recvTaskArg q i

theorem length_taskArgs_le : (a.taskArgs q).length ≤ 2048 := by
  have := chunksNum_le a.len
  unfold taskArgs
  split <;> simp only [List.length_map, List.length_range] <;> omega

/-- The array given to `thread_pool_submit_batch_tasks`. -/
def batch : Batch (TaskArg ρ) Empty where
  tasks := (a.taskArgs q).map (Prod.mk a.key)
  completeCb := none
  batchCb := none
  count_lt := by
    rw [List.length_map]
    exact Nat.lt_of_le_of_lt (a.length_taskArgs_le q) (by decide)

/-- `write_info` for the chunk that the caller posts. -/
def firstWr : JfsWr := urmaWriteWithNotify (buildWriteInfo (a.chunk 0).len a.key a.clientKey) (a.chunk 0)

/-- `send_single_chunk`. -/
def singleWr : JfsWr := urmaWriteWithNotify (buildWriteInfo a.len a.key a.clientKey) ⟨a.src, a.dst, a.len⟩

end Request

/-- What was handed to URMA or CUDA for a request, and accesses to its memory after it was freed. -/
inductive Op
  /-- the caller posts chunk 0 -/
  | firstPost (wr : JfsWr) (ok : Bool)
  /-- a worker posts a chunk -/
  | post (chunk : Nat) (wr : JfsWr) (ok : Bool)
  /-- `cudaMemcpyAsync` of a chunk -/
  | copy (chunk : Nat) (dst src : UInt64) (len : UInt32) (ok : Bool)
  /-- `cudaEventRecord` -/
  | record
  /-- a worker posts or copies whatever the freed memory holds for the chunk -/
  | wild (chunk : Nat)
  /-- a worker reads freed memory later in the task function -/
  | stale (chunk : Nat)
deriving DecidableEq

/-- `task_sync_t`. The `uint64_t` counters count at most 2048 tasks. -/
structure TaskSync where
  requestCompleted : Bool
  totalTasks : Nat
  completedTasks : Nat
deriving DecidableEq

/-- `mark_task_group_completed`. -/
def TaskSync.markTaskGroupCompleted (sync : TaskSync) (success : Bool) : TaskSync :=
  if success then
    { sync with
      completedTasks := sync.completedTasks + 1
      requestCompleted := sync.requestCompleted || sync.completedTasks + 1 == sync.totalTasks }
  else { sync with requestCompleted := true }

/-- Where a call of `os_transport_send` or `os_transport_recv` stands. -/
inductive CallerPc
  | idle
  /-- inside `thread_pool_submit_batch_tasks` -/
  | registering
  /-- before chunk `i` is posted -/
  | posting (i : Nat)
  /-- a post has failed, `request_completed` is about to be set -/
  | failing
  /-- returned, with a sync handle or without, 0 or -1 -/
  | returned (handle ok : Bool)
deriving DecidableEq

/-- Where the call of `wait_and_free_sync` stands. -/
inductive WaiterPc
  | idle
  /-- in `wait_for_task_complete` -/
  | waiting
  /-- before `completed_tasks` is compared with `total_tasks` -/
  | checking
  /-- inside `thread_pool_cancel_tasks_by_req` -/
  | cancelling
  /-- before `free_sync_owned_resources` -/
  | freeing (ok : Bool)
  /-- returned 0 or -1 -/
  | returned (ok : Bool)
deriving DecidableEq

/-- Where a worker stands in `send_task_worker_func` or `recv_task_worker_func`. -/
inductive TaskPc
  | issue
  | mark (ok : Bool)
  /-- before `is_last_chunk` is read -/
  | readLast
  | readStream
  | readEvent
  /-- before `cudaEventRecord`, stream and event read -/
  | record
deriving DecidableEq

/-- The names of the calls made on the pool. -/
inductive Tid (ρ ψ : Type)
  | caller (q : ρ)
  | waiter (q : ρ)
  | poller (k : ψ)
deriving DecidableEq

/-- What a request has come to. -/
structure Transfer where
  caller : CallerPc
  waiter : WaiterPc
  sync : TaskSync
  freed : Bool
  ops : List Op
  /-- the receive work requests the call handed to URMA, and whether URMA took them -/
  recvPosts : List (JfrWr × Bool)
deriving DecidableEq

structure Sys (ρ ψ : Type) where
  pool : PoolSys (Tid ρ ψ) (TaskArg ρ) Empty
  transfers : ρ → Transfer
  taskPc : Fin 64 → TaskPc

inductive Action (ρ ψ : Type)
  /-- `os_transport_send` or `os_transport_recv` is called -/
  | call (q : ρ) (o : Oracle)
  /-- the next section of that call -/
  | caller (q : ρ) (o : Oracle)
  /-- `wait_and_free_sync` is called -/
  | wait (q : ρ)
  /-- the next section of that call -/
  | waiter (q : ρ) (o : Oracle)
  /-- `os_transport_wake_up_task` is called -/
  | wakeUpTask (k : ψ) (cr : UrmaCr) (o : Oracle)
  /-- the next section of that call -/
  | poller (k : ψ) (o : Oracle)
  /-- the next section of a worker -/
  | worker (i : Fin 64) (o : Oracle)
deriving DecidableEq

namespace Sys
variable {ρ ψ : Type} [DecidableEq ρ] [DecidableEq ψ]

def setTransfer (s : Sys ρ ψ) (q : ρ) (x : Transfer) : Sys ρ ψ :=
  { s with transfers := Function.update s.transfers q x }

def setTaskPc (s : Sys ρ ψ) (i : Fin 64) (pc : TaskPc) : Sys ρ ψ :=
  { s with taskPc := Function.update s.taskPc i pc }

/-- A step of the pool. -/
def poolStep (s : Sys ρ ψ) (a : Act (Tid ρ ψ) (TaskArg ρ) Empty) : Option (Sys ρ ψ) :=
  (s.pool.step a).map fun p => { s with pool := p }

/-- `os_transport_send` and `os_transport_recv` up to the submission of the tasks. -/
def callStep (a : Request) (s : Sys ρ ψ) (q : ρ) (o : Oracle) : Option (Sys ρ ψ) :=
  let x := s.transfers q
  match x.caller with
  | .idle =>
    if a.len = 0 then some (s.setTransfer q { x with caller := .returned false false })
    else if a.type = .send ∧ a.len.toNat ≤ defaultChunkSize then
      some (s.setTransfer q
        { x with caller := .returned false o.ok, ops := x.ops ++ [.firstPost a.singleWr o.ok] })
    else if !o.ok then some (s.setTransfer q { x with caller := .returned false false })
    else
      (s.setTransfer q { x with
        caller := .registering
        sync := { x.sync with totalTasks := (a.taskArgs q).length } }).poolStep
          (.call (.caller q) (.submitBatch (a.batch q)) o)
  | _ => none

/-- The call after that. -/
def callerStep (a : Request) (s : Sys ρ ψ) (q : ρ) (o : Oracle) : Option (Sys ρ ψ) :=
  let x := s.transfers q
  match x.caller with
  | .registering =>
    match s.pool.threads (.caller q) with
    | .done (.ids _) => some (s.setTransfer q { x with caller := .posting 0 })
    | .done _ => some (s.setTransfer q { x with caller := .returned false false })
    | _ => s.poolStep (.thread (.caller q) o)
  | .posting i =>
    match a.type with
    | .send =>
      some (s.setTransfer q { x with
        caller := if o.ok then .returned true true else .failing
        ops := x.ops ++ [.firstPost a.firstWr o.ok] })
    -- `urma_recv_with_notify` for every chunk
    | .recv =>
      some (s.setTransfer q { x with
        caller := if !o.ok then .failing
          else if i + 1 < chunksNum a.len then .posting (i + 1) else .returned true true
        recvPosts := x.recvPosts ++ [(urmaRecvWithNotify a.key (a.chunk i), o.ok)] })
  | .failing =>
    some (s.setTransfer q { x with
      caller := .returned true false, sync := { x.sync with requestCompleted := true } })
  | _ => none

/-- `wait_and_free_sync`; its `task_group` is set by every call that leaves a sync handle. -/
def waiterStep (a : Request) (s : Sys ρ ψ) (q : ρ) (o : Oracle) : Option (Sys ρ ψ) :=
  let x := s.transfers q
  match x.waiter with
  | .waiting =>
    if x.sync.requestCompleted then some (s.setTransfer q { x with waiter := .checking }) else none
  | .checking =>
    if x.sync.completedTasks = x.sync.totalTasks then
      some (s.setTransfer q { x with waiter := .freeing true })
    else
      (s.setTransfer q { x with waiter := .cancelling }).poolStep (.call (.waiter q) (.cancel a.key) o)
  | .cancelling =>
    match s.pool.threads (.waiter q) with
    | .done _ => some (s.setTransfer q { x with waiter := .freeing false })
    | _ => s.poolStep (.thread (.waiter q) o)
  | .freeing ok => some (s.setTransfer q { x with waiter := .returned ok, freed := true })
  | _ => none

/-- `do_send_chunk_for_worker` or `do_recv_chunk_for_worker`. -/
def issueOp (a : Request) (arg : TaskArg ρ) (ok : Bool) : Op :=
  let c := a.chunk arg.chunkInfo
  match arg.info with
  | .write info => .post arg.chunkInfo (urmaWriteWithNotify info c) ok
  | .recv _ => .copy arg.chunkInfo c.dst c.src c.len ok

/-- The next part of `send_task_worker_func` or `recv_task_worker_func`. -/
def taskStep (a : Request) (s : Sys ρ ψ) (i : Fin 64) (arg : TaskArg ρ) (o : Oracle) :
    Option (Sys ρ ψ) :=
  let q := arg.sync
  let x := s.transfers q
  let stay (pc : TaskPc) (x : Transfer) : Option (Sys ρ ψ) := some ((s.setTransfer q x).setTaskPc i pc)
  let leave (x : Transfer) : Option (Sys ρ ψ) :=
    ((s.setTransfer q x).setTaskPc i .issue).poolStep (.worker i o)
  match s.taskPc i, x.freed with
  | .record, _ => leave { x with ops := x.ops ++ [.record] }
  | .issue, true => leave { x with ops := x.ops ++ [.wild arg.chunkInfo] }
  | _, true => leave { x with ops := x.ops ++ [.stale arg.chunkInfo] }
  | .issue, false => stay (.mark o.ok) { x with ops := x.ops ++ [issueOp a arg o.ok] }
  | .mark ok, false =>
    let x := { x with sync := x.sync.markTaskGroupCompleted ok }
    match arg.info with
    | .write _ => leave x
    | .recv _ => stay .readLast x
  | .readLast, false => if arg.isLastChunk then stay .readStream x else leave x
  | .readStream, false => stay .readEvent x
  | .readEvent, false => stay .record x

def step (args : ρ → Request) (s : Sys ρ ψ) : Action ρ ψ → Option (Sys ρ ψ)
  | .call q o => callStep (args q) s q o
  | .caller q o => callerStep (args q) s q o
  | .wait q =>
    match (s.transfers q).caller, (s.transfers q).waiter with
    | .returned true _, .idle => some (s.setTransfer q { s.transfers q with waiter := .waiting })
    | _, _ => none
  | .waiter q o => waiterStep (args q) s q o
  | .wakeUpTask k cr o =>
    match cr.requestId? with
    | some r => s.poolStep (.call (.poller k) (.wakeUp r) o)
    | none => some s
  | .poller k o => s.poolStep (.thread (.poller k) o)
  | .worker i o =>
    match (s.pool.pool.workers i).pc with
    | .func task => taskStep (args task.taskArg.userArg.sync) s i task.taskArg.userArg o
    | _ => s.poolStep (.worker i o)

/-- The handle after `os_transport_init`. -/
def start : Sys ρ ψ where
  pool := PoolSys.start
  transfers _ :=
    { caller := .idle, waiter := .idle, sync := ⟨false, 0, 0⟩, freed := false, ops := [], recvPosts := [] }
  taskPc _ := .issue

end Sys
end OsTransport
