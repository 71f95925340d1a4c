import OsTransport.Awaited
import OsTransport.Lib.Run

/-!
# The life of a pool

`thread_pool_init`, `thread_pool_start` and `thread_pool_destroy` around the calls of a `PoolSys`, made by
one thread, the owner. A worker that `PoolSys` has in `wait` is here at one of the places of `Nap`: between
the test of its loop condition and the block in `pthread_cond_wait` it still holds its mutex, and once
blocked it needs a signal of its `cond_task` to go on, or a spurious one. During its creation the owner waits
on the same condition variable; a signal then goes to one of the two. A `pthread_create` that fails may leave
anything in `tid`: `thread_pool_destroy` joins what is not 0 there, and crashes, which is no step. Once the pool
is destroyed, its memory is freed and no step is taken.
-/

namespace OsTransport

/-- Where a worker thread stands that runs no task. -/
inductive Nap
  /-- no thread was created: `tid` is 0 -/
  | unborn
  /-- `pthread_create` failed and `tid` is not 0 -/
  | lost
  /-- created, before it first locks its mutex -/
  | born
  /-- the loop condition was true, `pthread_cond_wait` is next; its mutex is held -/
  | sleepy
  /-- in `pthread_cond_wait`, without a signal -/
  | asleep
  /-- signalled, before the loop condition is tested again -/
  | woken
deriving DecidableEq

/-- There is a thread. -/
def Nap.hasThread : Nap → Bool
  | .unborn | .lost => false
  | _ => true

/-- Where the owner stands. -/
inductive OwnerPc
  /-- in `create_worker`, before `pthread_create`; the mutex of the worker is held -/
  | create (i : Fin 64)
  /-- in `pthread_cond_wait` of `create_worker` -/
  | await (i : Fin 64) (signalled : Bool)
  /-- the pool is there -/
  | made
  /-- in `shutdown_threads`, before `is_destroying` is set -/
  | setFlag
  /-- in `shutdown_threads`, before worker `i` is signalled -/
  | signal (i : Fin 64)
  /-- before the join of worker `i` -/
  | join (i : Fin 64)
  | destroyed
deriving DecidableEq

structure Life (τ α κ : Type) where
  sys : PoolSys τ α κ
  nap : Fin 64 → Nap
  owner : OwnerPc

/-- `pick` says which of two threads waiting on a condition variable a signal goes to, and of a `pthread_create`
that fails whether `tid` is still 0. -/
inductive LifeAct (τ α κ : Type)
  | call (t : τ) (c : Call α κ) (o : Oracle)
  | thread (t : τ) (o : Oracle) (pick : Bool)
  | worker (i : Fin 64) (o : Oracle) (pick : Bool)
  /-- a spurious wake-up from `cond_task` of worker `i` -/
  | spurious (i : Fin 64) (pick : Bool)
  /-- `thread_pool_start` -/
  | start
  /-- `thread_pool_destroy` is called -/
  | destroy
  /-- the next section of the owner -/
  | owner (o : Oracle) (pick : Bool)
deriving DecidableEq

/-- Where its thread stands before `pthread_cond_wait`, or when it runs a task. -/
def WorkerPc.nap {τ α κ : Type} : WorkerPc τ α κ → Nap
  | .wait => .sleepy
  | _ => .woken

/-- The thread has returned. -/
def WorkerPc.hasExited {τ α κ : Type} : WorkerPc τ α κ → Bool
  | .exited => true
  | _ => false

/-- The next turn of a loop over the workers. -/
def nextWorker (i : Fin 64) : Option (Fin 64) :=
  if h : i.val + 1 < 64 then some ⟨i.val + 1, h⟩ else none

/-- `calloc` and `init_workers_basic`. -/
def Pool.calloced {τ α κ : Type} : Pool τ α κ :=
  { Pool.threadPoolInit with
    workers := fun _ => { state := .init, queue := [], queueSize := 0, pendingReq := 0, pc := .wait } }

open Lts
namespace Life
variable {τ α κ : Type} [DecidableEq τ] (s : Life τ α κ)

def setNap (i : Fin 64) (n : Nap) : Life τ α κ := { s with nap := Function.update s.nap i n }

/-- `pthread_mutex_lock(&worker->mutex)` goes through. -/
def mutexFree (i : Fin 64) : Bool :=
  (s.sys.pool.workers i).mutexFree && s.nap i != .sleepy && s.owner != .create i

/-- `pthread_cond_signal(&worker->cond_task)`. -/
def signal (i : Fin 64) (pick : Bool) : Life τ α κ :=
  if s.owner = .await i false ∧ (pick = true ∨ s.nap i ≠ .asleep) then { s with owner := .await i true }
  else if s.nap i = .asleep then s.setNap i .woken
  else s

/-- After a section of worker `i`. -/
def settle (i : Fin 64) (y : PoolSys τ α κ) : Life τ α κ :=
  { s with sys := y, nap := Function.update s.nap i (y.pool.workers i).pc.nap }

/-- The first section of `worker_routine` before its loop. -/
def begin (i : Fin 64) (pick : Bool) : Life τ α κ :=
  { s with sys.pool := s.sys.pool.setWorker i { s.sys.pool.workers i with state := .idle } }.signal i pick

def workerStep (i : Fin 64) (o : Oracle) (pick : Bool) : Option (Life τ α κ) :=
  match s.nap i with
  | .unborn | .lost | .asleep => none
  | .sleepy => some (s.setNap i .asleep)
  | .born =>
    if s.mutexFree i then
      let s := s.begin i pick
      (s.sys.step (.worker i o)).map (s.settle i)
    else none
  | .woken => (s.sys.step (.worker i o)).map (s.settle i)

def ownerStep (o : Oracle) (pick : Bool) : Option (Life τ α κ) :=
  match s.owner with
  | .create i =>
    -- the worker cannot start before `pthread_cond_wait` releases its mutex, so its state is INIT
    if o.ok then some { s.setNap i .born with owner := .await i false }
    else if pick then some { s with owner := .setFlag }
    else some { s.setNap i .lost with owner := .setFlag }
  | .await i true =>
    if !s.mutexFree i then none
    else if (s.sys.pool.workers i).state = .init then some { s with owner := .await i false }
    else some { s with owner := match nextWorker i with
      | some j => .create j
      | none => .made }
  | .setFlag => some { s with sys.pool.isDestroying := true, owner := .signal 0 }
  | .signal i =>
    if s.mutexFree i then
      some { s.signal i pick with owner := match nextWorker i with
        | some j => .signal j
        | none => .join 0 }
    else none
  -- of a worker that is `lost` the join crashes
  | .join i =>
    if s.nap i = .unborn ∨ (s.sys.pool.workers i).pc.hasExited then
      some { s with owner := match nextWorker i with
        | some j => .join j
        | none => .destroyed }
    else none
  | .await _ false | .made | .destroyed => none

/-- Callers have the pool. -/
def shared : Bool :=
  match s.owner with
  | .made | .setFlag | .signal _ | .join _ => true
  | _ => false

def step (s : Life τ α κ) : LifeAct τ α κ → Option (Life τ α κ)
  | .call t c o => if s.shared then (s.sys.step (.call t c o)).map fun y => { s with sys := y } else none
  | .thread t o pick =>
    if s.shared ∧ ∀ i, (s.sys.threads t).locks = some i → s.mutexFree i then
      (s.sys.step (.thread t o)).map fun y =>
        match s.sys.threads t with
        | .wakeSet _ i => { s with sys := y }.signal i pick
        | _ => { s with sys := y }
    else none
  | .worker i o pick => s.workerStep i o pick
  | .spurious i pick => some (s.signal i pick)
  | .start =>
    if s.owner = .made ∧ s.sys.pool.isRunning = false then
      some { s with sys.pool := s.sys.pool.threadPoolStart }
    else none
  | .destroy => if s.owner = .made then some { s with owner := .setFlag } else none
  | .owner o pick => s.ownerStep o pick

/-- `thread_pool_init` is called. -/
def calloced : Life τ α κ where
  sys := { pool := Pool.calloced, threads := fun _ => .idle }
  nap _ := .unborn
  owner := .create 0

/-! ### The cases of a step -/

/-- A signal, or none, has been sent. -/
def Signalled (s s' : Life τ α κ) : Prop :=
  s' = s ∨ (∃ i, s.nap i = .asleep ∧ s' = s.setNap i .woken) ∨
    ∃ i, s.owner = .await i false ∧ s' = { s with owner := .await i true }

omit [DecidableEq τ] in
theorem signal_cases (i : Fin 64) (pick : Bool) : Signalled s (s.signal i pick) := by
  unfold signal
  split
  · rename_i h
    exact .inr (.inr ⟨i, h.1, rfl⟩)
  split
  · rename_i h
    exact .inr (.inl ⟨i, h, rfl⟩)
  · exact .inl rfl

omit [DecidableEq τ] in
/-- A worker that is alone on its condition variable does not sleep through a signal. -/
theorem signal_awake {i : Fin 64} (h : ∀ b, s.owner ≠ .await i b) (pick : Bool) : (s.signal i pick).nap i ≠ .asleep := by
  unfold signal
  rw [if_neg fun hi => h false hi.1]
  split
  · simp [setNap]
  · assumption

/-- The cases of `step`. -/
inductive Step : LifeAct τ α κ → Life τ α κ → Prop
  | call (t : τ) (c : Call α κ) (o : Oracle) (y : PoolSys τ α κ) (hsh : s.shared = true)
      (hy : s.sys.step (.call t c o) = some y) : Step (.call t c o) { s with sys := y }
  | thread (t : τ) (o : Oracle) (pick : Bool) (y : PoolSys τ α κ) (s' : Life τ α κ) (hsh : s.shared = true)
      (hm : ∀ i, (s.sys.threads t).locks = some i → s.mutexFree i = true)
      (hy : s.sys.step (.thread t o) = some y) (hs : Signalled { s with sys := y } s') : Step (.thread t o pick) s'
  /-- `pthread_cond_wait` releases the mutex -/
  | sleep (i : Fin 64) (o : Oracle) (pick : Bool) (hn : s.nap i = .sleepy) :
      Step (.worker i o pick) (s.setNap i .asleep)
  | begin (i : Fin 64) (o : Oracle) (pick : Bool) (y : PoolSys τ α κ) (hn : s.nap i = .born)
      (hm : s.mutexFree i = true) (hy : (s.begin i pick).sys.step (.worker i o) = some y) :
      Step (.worker i o pick) ((s.begin i pick).settle i y)
  | turn (i : Fin 64) (o : Oracle) (pick : Bool) (y : PoolSys τ α κ) (hn : s.nap i = .woken)
      (hy : s.sys.step (.worker i o) = some y) : Step (.worker i o pick) (s.settle i y)
  | spurious (i : Fin 64) (pick : Bool) (s' : Life τ α κ) (hs : Signalled s s') : Step (.spurious i pick) s'
  | start (ho : s.owner = .made) : Step .start { s with sys.pool := s.sys.pool.threadPoolStart }
  | destroy (ho : s.owner = .made) : Step .destroy { s with owner := .setFlag }
  | create (i : Fin 64) (o : Oracle) (pick : Bool) (ho : s.owner = .create i) :
      Step (.owner o pick) { s.setNap i .born with owner := .await i false }
  | createFail (i : Fin 64) (o : Oracle) (pick : Bool) (ho : s.owner = .create i) :
      Step (.owner o pick) { s with owner := .setFlag }
  | createLost (i : Fin 64) (o : Oracle) (ho : s.owner = .create i) (hok : o.ok = false) :
      Step (.owner o false) { s.setNap i .lost with owner := .setFlag }
  | await (i : Fin 64) (o : Oracle) (pick : Bool) (ho : s.owner = .await i true)
      (hi : (s.sys.pool.workers i).state = .init) : Step (.owner o pick) { s with owner := .await i false }
  | created (i : Fin 64) (o : Oracle) (pick : Bool) (w : OwnerPc) (ho : s.owner = .await i true)
      (hi : (s.sys.pool.workers i).state ≠ .init)
      (hw : w = match nextWorker i with | some j => .create j | none => .made) :
      Step (.owner o pick) { s with owner := w }
  | setFlag (o : Oracle) (pick : Bool) (ho : s.owner = .setFlag) :
      Step (.owner o pick) { s with sys.pool.isDestroying := true, owner := .signal 0 }
  | signal (i : Fin 64) (o : Oracle) (pick : Bool) (w : OwnerPc) (ho : s.owner = .signal i)
      (hm : s.mutexFree i = true) (hw : w = match nextWorker i with | some j => .signal j | none => .join 0) :
      Step (.owner o pick) { s.signal i pick with owner := w }
  | join (i : Fin 64) (o : Oracle) (pick : Bool) (w : OwnerPc) (ho : s.owner = .join i)
      (hi : s.nap i = .unborn ∨ (s.sys.pool.workers i).pc.hasExited = true)
      (hw : w = match nextWorker i with | some j => .join j | none => .destroyed) :
      Step (.owner o pick) { s with owner := w }

variable {s} in
theorem step_cases {s' : Life τ α κ} {a : LifeAct τ α κ} (h : s.step a = some s') : Step s a s' := by
  cases a with
  | call t c o =>
    simp only [step] at h
    split at h
    · rename_i hsh
      obtain ⟨y, hy, rfl⟩ := Option.map_eq_some_iff.1 h
      exact .call t c o y hsh hy
    · cases h
  | thread t o pick =>
    simp only [step] at h
    split at h
    · rename_i hsh
      obtain ⟨y, hy, rfl⟩ := Option.map_eq_some_iff.1 h
      refine .thread t o pick y _ hsh.1 hsh.2 hy ?_
      split
      · exact signal_cases _ _ _
      · exact .inl rfl
    · cases h
  | worker i o pick =>
    simp only [step, workerStep] at h
    split at h
    · cases h
    · cases h
    · cases h
    · rename_i hn
      cases h
      exact .sleep i o pick hn
    · rename_i hn
      split at h
      · rename_i hm
        obtain ⟨y, hy, rfl⟩ := Option.map_eq_some_iff.1 h
        exact .begin i o pick y hn hm hy
      · cases h
    · rename_i hn
      obtain ⟨y, hy, rfl⟩ := Option.map_eq_some_iff.1 h
      exact .turn i o pick y hn hy
  | spurious i pick => cases h; exact .spurious i pick _ (signal_cases _ _ _)
  | start =>
    simp only [step] at h
    split at h
    · rename_i ho
      cases h
      exact .start ho.1
    · cases h
  | destroy =>
    simp only [step] at h
    split at h
    · rename_i ho
      cases h
      exact .destroy ho
    · cases h
  | owner o pick =>
    simp only [step, ownerStep] at h
    split at h
    · rename_i i ho
      split at h
      · cases h
        exact .create i o pick ho
      rename_i hok
      cases pick <;> cases h
      · exact .createLost i o ho (by simpa using hok)
      · exact .createFail i o true ho
    · rename_i i ho
      split at h
      · cases h
      split at h <;> cases h
      · rename_i hi
        exact .await i o pick ho hi
      · rename_i hi
        exact .created i o pick _ ho hi rfl
    · rename_i ho
      cases h
      exact .setFlag o pick ho
    · rename_i i ho
      split at h
      · rename_i hm
        cases h
        exact .signal i o pick _ ho hm rfl
      · cases h
    · rename_i i ho
      split at h
      · rename_i hi
        cases h
        exact .join i o pick _ ho hi rfl
      · cases h
    all_goals cases h

/-! ### A pool that was made -/

/-- The handle is there, every worker waits and no call was made. -/
def running : Life τ α κ where
  sys := PoolSys.start
  nap _ := .asleep
  owner := .made

/-- `create_worker`, and its worker up to its first `pthread_cond_wait`. -/
def createWorker (i : Fin 64) : List (LifeAct τ α κ) :=
  [.owner {} true, .worker i {} true, .worker i {} true, .owner {} true]

/-- The first `n` of the workers are at `a`, the others still at `b`. -/
def upTo {β : Type} (n : Nat) (a b : β) (i : Fin 64) : β := if i.val < n then a else b

theorem update_upTo {β : Type} {n : Nat} (h : n < 64) (a b : β) :
    Function.update (upTo n a b) ⟨n, h⟩ a = upTo (n + 1) a b := by
  funext i
  unfold upTo
  rcases eq_or_ne i ⟨n, h⟩ with rfl | hi
  · simp
  · have hne : i.val ≠ n := fun e => hi (Fin.ext e)
    rw [Function.update_of_ne hi]
    exact if_congr (by omega) rfl rfl

/-- The first `n` workers were created. -/
def created (n : Nat) : Life τ α κ where
  sys :=
    { pool := { Pool.threadPoolInit with
        workers := upTo n (Pool.threadPoolInit.workers 0) (Pool.calloced.workers 0) }
      threads := fun _ => .idle }
  nap := upTo n .asleep .unborn
  owner := if h : n < 64 then .create ⟨n, h⟩ else .made

theorem created_next {n : Nat} (h : n < 64) :
    exec Life.step (created n : Life τ α κ) (createWorker ⟨n, h⟩) = some (created (n + 1)) := by
  let i : Fin 64 := ⟨n, h⟩
  let p : Pool τ α κ := (created n : Life τ α κ).sys.pool.setWorker i (Pool.threadPoolInit.workers 0)
  have hcreate : step (created n : Life τ α κ) (.owner {} true) =
      some { (created n).setNap i .born with owner := .await i false } := by
    simp [step, ownerStep, created, h, i]
  have hbegin : step ({ (created n).setNap i .born with owner := .await i false } : Life τ α κ) (.worker i {} true) =
      some { (created n).setNap i .sleepy with sys.pool := p, owner := .await i true } := by
    simp [step, workerStep, setNap, mutexFree, WorkerThread.mutexFree, begin, signal, created, upTo, PoolSys.step,
      Pool.workerStep, Pool.loopHead, Pool.park, Pool.setPc, Pool.setWorker, settle, Pool.threadPoolInit,
      Pool.calloced, WorkerPc.nap, i, p]
  have hsleep : step ({ (created n).setNap i .sleepy with sys.pool := p, owner := .await i true } : Life τ α κ)
      (.worker i {} true) = some { (created n).setNap i .asleep with sys.pool := p, owner := .await i true } := by
    simp [step, workerStep, setNap]
  have hlast : step ({ (created n).setNap i .asleep with sys.pool := p, owner := .await i true } : Life τ α κ)
      (.owner {} true) = some (created (n + 1)) := by
    simp only [step, ownerStep, setNap, mutexFree, p, Pool.setWorker, Function.update_self]
    simp only [created, i, update_upTo]
    by_cases hn : n + 1 < 64 <;> simp [WorkerThread.mutexFree, Pool.threadPoolInit, nextWorker, hn]
  simp only [createWorker, exec]
  rw [hcreate, Option.bind_some, hbegin, Option.bind_some, hsleep, Option.bind_some, hlast, Option.bind_some]

/-- The workers are created one after the other. -/
def createWorkers : Nat → List (LifeAct τ α κ)
  | 0 => []
  | n + 1 => createWorkers n ++ createWorker (Fin.ofNat 64 n)

theorem createWorkers_exec {n : Nat} (h : n ≤ 64) :
    exec Life.step (calloced : Life τ α κ) (createWorkers n) = some (created n) := by
  induction n with
  | zero => rfl
  | succ n ih =>
    have hn : Fin.ofNat 64 n = ⟨n, h⟩ := Fin.ext (Nat.mod_eq_of_lt h)
    refine exec_append.2 ⟨created n, ih (Nat.le_of_succ_le h), ?_⟩
    rw [hn]
    exact created_next h

/-- `thread_pool_init` and `thread_pool_start`. -/
def startRun : List (LifeAct τ α κ) := createWorkers 64 ++ [.start]

/-- The pool on which calls are made is the one that init and start leave when all threads can be created. -/
theorem startRun_exec : exec Life.step (calloced : Life τ α κ) startRun = some running := by
  refine exec_snoc.2 ⟨created 64, createWorkers_exec (Nat.le_refl _), ?_⟩
  have hup : ∀ {β : Type} (a b : β), upTo 64 a b = fun _ => a := fun a b => funext fun i => if_pos i.isLt
  simp only [step, created, hup]
  rfl

end Life
end OsTransport
