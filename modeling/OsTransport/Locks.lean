import OsTransport.Lib.LockOrder
import OsTransport.Lib.Run
import OsTransport.ThreadPoolCases

/-!
# The mutexes of a pool

A `PoolSys` with the threads that take its steps and the mutexes they hold. A section that `PoolSys` takes
at once is here two steps: its thread locks the mutex of the section, then runs it and unlocks. A worker keeps
its own mutex from `pthread_cond_wait` to `pthread_cond_wait`, so also while it runs the code of its user, and
that code may call the pool. Every thread that can call may also have a section under the mutex of a sync
object (`wait_for_task_complete` between two waits, `mark_task_group_completed`, and where
`os_transport_send` and `os_transport_recv` set `request_completed`); no other mutex is locked in it.
The mutexes are not recursive.
-/

namespace OsTransport

/-- A thread that calls the pool from outside, or a worker. -/
inductive Party
  | caller (n : Nat)
  | worker (i : Fin 64)
deriving DecidableEq

/-- The mutexes of a pool, and those of the sync objects `σ`. -/
inductive Mutex (σ : Type)
  | worker (i : Fin 64)
  | reqHash
  | taskId
  | sync (x : σ)
deriving DecidableEq

/-- Code of the user that a worker runs. -/
inductive Code (α κ : Type)
  | func (f : α)
  | callback (cb : κ)

/-- The mutex of the next section of a call. -/
def Pc.mutex {τ α κ σ : Type} : Pc τ α κ → Option (Mutex σ)
  | .select _ _ i _ _ | .attach _ i _ | .wakeSet _ i | .cancelQueue _ _ i => some (.worker i)
  | .create .. => some .taskId
  | .findCtx .. | .bump .. | .insert .. | .wakeFind .. | .cancelFind .. | .cancelUpdate .. => some .reqHash
  | .idle | .wakeRead .. | .cancelRead .. | .done .. => none

/-- An allocation before the mutex of the section is locked fails. -/
def Pc.failsFirst {τ α κ : Type} (o : Oracle) : Pc τ α κ → Bool
  | .create .. | .insert .. => !o.ok
  | _ => false

/-- The mutex that worker `i` locks for its next section, its own when it returns from `pthread_cond_wait`. -/
def WorkerPc.mutex {τ α κ σ : Type} (i : Fin 64) : WorkerPc τ α κ → Option (Mutex σ)
  | .wait => some (.worker i)
  | .find .. | .dec .. | .remove .. => some .reqHash
  | .func .. | .complete .. | .batch .. | .finish .. | .exited => none

/-- The code of the user that a worker is in. -/
def WorkerPc.code? {τ α κ : Type} : WorkerPc τ α κ → Option (Code α κ)
  | .func task => some (.func task.taskArg.userArg)
  | .complete task => task.taskArg.completeCb.map .callback
  | .batch _ cb => cb.map .callback
  | _ => none

/-- `σ` names the sync objects. The `k`-th call of thread `x` has the name `(x, k)` in the pool. -/
structure LockSys (σ α κ : Type) where
  sys : PoolSys (Party × Nat) α κ
  /-- the call a thread is in -/
  call : Party → Option Nat
  /-- the sync object whose mutex a thread locks outside of the pool -/
  sync : Party → Option σ
  holder : Mutex σ → Option Party
  /-- the thread has locked the mutex of its section -/
  inside : Party → Bool

inductive LockAct (σ α κ : Type)
  /-- the thread makes its `k`-th call -/
  | call (x : Party) (k : Nat) (c : Call α κ) (o : Oracle)
  /-- its call returns -/
  | leave (x : Party)
  /-- it comes to a section under the mutex of a sync object -/
  | sync (x : Party) (y : σ)
  /-- it locks the mutex of its section -/
  | lock (x : Party)
  /-- it runs its section -/
  | run (x : Party) (o : Oracle)
deriving DecidableEq

open Lts Locking
namespace LockSys
variable {σ α κ : Type} [DecidableEq σ] (s : LockSys σ α κ)

/-- The mutex of the section a thread is at. -/
def next (x : Party) : Option (Mutex σ) :=
  match s.sync x, s.call x, x with
  | some y, _, _ => some (.sync y)
  | none, some k, _ => (s.sys.threads (x, k)).mutex
  | none, none, .caller _ => none
  | none, none, .worker i => (s.sys.pool.workers i).pc.mutex i

def locks : Locks Party (Mutex σ) where
  holder := s.holder
  wants x := if s.inside x then none else s.next x

/-- A caller between two calls, or a worker in the code of its user. -/
def atLarge (x : Party) : Bool :=
  (s.call x).isNone && (s.sync x).isNone && match x with
    | .caller _ => true
    | .worker i => (s.sys.pool.workers i).pc.code?.isSome

/-- `pthread_mutex_unlock` at the end of a section. -/
def unlock (x : Party) : LockSys σ α κ :=
  match s.inside x, s.next x with
  | true, some m => { s with holder := Function.update s.holder m none, inside := Function.update s.inside x false }
  | _, _ => s

/-- A worker holds its mutex from the test of its loop condition until it waits again or ends. -/
def keep (i : Fin 64) (y : PoolSys (Party × Nat) α κ) : LockSys σ α κ :=
  { s with
    sys := y
    holder := Function.update s.holder (.worker i)
      (if (y.pool.workers i).mutexFree then none else some (.worker i)) }

def run (x : Party) (o : Oracle) : Option (LockSys σ α κ) :=
  match s.sync x, s.call x, x with
  | some _, _, _ => if s.inside x then some { s.unlock x with sync := Function.update s.sync x none } else none
  | none, some k, _ =>
    if s.inside x ∨ s.next x = none ∨ (s.sys.threads (x, k)).failsFirst o then
      (s.sys.step (.thread (x, k) o)).map fun y => { s.unlock x with sys := y }
    else none
  | none, none, .caller _ => none
  | none, none, .worker i =>
    if s.inside x ∨ s.next x = none then (s.sys.step (.worker i o)).map fun y => (s.unlock x).keep i y
    else none

def step (s : LockSys σ α κ) : LockAct σ α κ → Option (LockSys σ α κ)
  | .call x k c o =>
    if s.atLarge x then
      (s.sys.step (.call (x, k) c o)).map fun y => { s with sys := y, call := Function.update s.call x (some k) }
    else none
  | .leave x =>
    match s.call x with
    | some k =>
      match s.sys.threads (x, k) with
      | .done _ => some { s with call := Function.update s.call x none }
      | _ => none
    | none => none
  | .sync x y => if s.atLarge x then some { s with sync := Function.update s.sync x (some y) } else none
  | .lock x =>
    match s.inside x, s.next x with
    | false, some m =>
      match s.holder m with
      | none =>
        some { s with holder := Function.update s.holder m (some x), inside := Function.update s.inside x true }
      | some _ => none
    | _, _ => none
  | .run x o => s.run x o

/-- A started pool, before any call. -/
def start : LockSys σ α κ where
  sys := PoolSys.start
  call _ := none
  sync _ := none
  holder _ := none
  inside _ := false

@[simp] theorem unlock_sys (x : Party) : (s.unlock x).sys = s.sys := by
  unfold unlock; split <;> rfl

@[simp] theorem unlock_call (x : Party) : (s.unlock x).call = s.call := by
  unfold unlock; split <;> rfl

@[simp] theorem unlock_sync (x : Party) : (s.unlock x).sync = s.sync := by
  unfold unlock; split <;> rfl

/-- The cases of `step`. -/
inductive Step : LockAct σ α κ → LockSys σ α κ → Prop
  | call (x : Party) (k : Nat) (c : Call α κ) (o : Oracle) (hx : s.atLarge x = true)
      (ht : s.sys.threads (x, k) = .idle) :
      Step (.call x k c o) { s with
        sys := s.sys.setThread (x, k) (PoolSys.enter s.sys.pool o c)
        call := Function.update s.call x (some k) }
  | leave (x : Party) (k : Nat) (r : Ret) (hk : s.call x = some k) (ht : s.sys.threads (x, k) = .done r) :
      Step (.leave x) { s with call := Function.update s.call x none }
  | sync (x : Party) (y : σ) (hx : s.atLarge x = true) :
      Step (.sync x y) { s with sync := Function.update s.sync x (some y) }
  | lock (x : Party) (m : Mutex σ) (hi : s.inside x = false) (hn : s.next x = some m) (hm : s.holder m = none) :
      Step (.lock x)
        { s with holder := Function.update s.holder m (some x), inside := Function.update s.inside x true }
  | synced (x : Party) (o : Oracle) (y : σ) (hy : s.sync x = some y) (hi : s.inside x = true) :
      Step (.run x o) { s.unlock x with sync := Function.update s.sync x none }
  | thread (x : Party) (k : Nat) (o : Oracle) (p : Pool (Party × Nat) α κ) (pc : Pc (Party × Nat) α κ)
      (hy : s.sync x = none) (hk : s.call x = some k)
      (hp : Pool.ThreadStep s.sys.pool (x, k) o (s.sys.threads (x, k)) p pc) :
      Step (.run x o) { s.unlock x with sys := { s.sys with pool := p }.setThread (x, k) pc }
  | worker (i : Fin 64) (o : Oracle) (p : Pool (Party × Nat) α κ) (hy : s.sync (.worker i) = none)
      (hk : s.call (.worker i) = none) (hp : Pool.WorkerStep s.sys.pool i o p) :
      Step (.run (.worker i) o) ((s.unlock (.worker i)).keep i { s.sys with pool := p })

variable {s} in
theorem step_cases {s' : LockSys σ α κ} {a : LockAct σ α κ} (h : s.step a = some s') : Step s a s' := by
  cases a with
  | call x k c o =>
    simp only [step] at h
    split at h
    · rename_i hx
      obtain ⟨y, hy, rfl⟩ := Option.map_eq_some_iff.1 h
      cases PoolSys.step_cases hy with
      | call _ _ _ ht => exact .call x k c o hx ht
    · cases h
  | leave x =>
    simp only [step] at h
    split at h
    · rename_i k hk
      split at h <;> cases h
      rename_i r ht
      exact .leave x k r hk ht
    · cases h
  | sync x y =>
    simp only [step] at h
    split at h
    · rename_i hx
      cases h
      exact .sync x y hx
    · cases h
  | lock x =>
    simp only [step] at h
    split at h
    · rename_i m hi hn
      split at h <;> cases h
      rename_i hm
      exact .lock x m hi hn hm
    · cases h
  | run x o =>
    simp only [step, run] at h
    split at h
    · rename_i y hy
      split at h
      · rename_i hi
        cases h
        exact .synced _ o y hy hi
      · cases h
    · rename_i k hy hk
      split at h
      · obtain ⟨y, hstep, rfl⟩ := Option.map_eq_some_iff.1 h
        cases PoolSys.step_cases hstep with
        | thread _ _ p pc hp => exact .thread _ k o p pc hy hk hp
      · cases h
    · cases h
    · rename_i i hy hk
      split at h
      · obtain ⟨y, hstep, rfl⟩ := Option.map_eq_some_iff.1 h
        cases PoolSys.step_cases hstep with
        | worker _ _ p hp => exact .worker i o p hy hk hp
      · cases h

end LockSys
end OsTransport
