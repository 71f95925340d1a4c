import OsTransport.Reuse
import OsTransport.Transport

/-!
# The transport in memory

`Sys.step` follows a task function no further once it reads memory that `wait_and_free_sync` has freed, and drops a write
to a freed context. In memory the block of a task argument may hold the argument of another task by then, whose chunk
the function posts or copies and whose sync object it counts on; `Sys.memStep` is the step with both. What the end of
`recv_task_worker_func` reads there, `is_last_chunk`, stream and event, changes no request. A run that makes no such use
of freed memory is a run of `Sys.step` (`exec_memStep`).
-/

namespace OsTransport

/-- What an action meets in memory that has been freed. -/
structure Found (ρ ψ : Type) where
  /-- in the block of a context -/
  tenant : Tenant (Tid ρ ψ) := .other
  /-- in the block of a task argument, when that is one again -/
  arg : Option (TaskArg ρ) := none

namespace Sys
variable {ρ ψ : Type} [DecidableEq ρ] [DecidableEq ψ]

/-- The section of the pool in an action. -/
def poolAct : Action ρ ψ → Option (Act (Tid ρ ψ) (TaskArg ρ) Empty)
  | .caller q o => some (.thread (.caller q) o)
  | .waiter q o => some (.thread (.waiter q) o)
  | .poller k o => some (.thread (.poller k) o)
  | .worker i o => some (.worker i o)
  | .call .. | .wait _ | .wakeUpTask .. => none

/-- The write of an action to a context that has been freed. -/
def stray (s : Sys ρ ψ) (a : Action ρ ψ) : Option (UInt32 × Tid ρ ψ × Int32) := (poolAct a).bind s.pool.stray

/-- The request whose task an action issues or counts after its arguments were freed. -/
def misuse (s : Sys ρ ψ) : Action ρ ψ → Option ρ
  | .worker i _ =>
    match (s.pool.pool.workers i).pc, s.taskPc i with
    | .func task, .issue | .func task, .mark _ =>
      if (s.transfers task.taskArg.userArg.sync).freed then some task.taskArg.userArg.sync else none
    | _, _ => none
  | _ => none

/-- One step, in memory. -/
def memStep (args : ρ → Request) (s : Sys ρ ψ) (x : Action ρ ψ × Found ρ ψ) : Option (Sys ρ ψ) :=
  if s.stray x.1 = none then
    match s.misuse x.1, x.1, x.2.arg with
    | some _, .worker i o, some arg => taskStep (args arg.sync) s i arg o
    | _, _, _ => step args s x.1
  else (poolAct x.1).bind fun a => (s.pool.memStep (a, x.2.tenant)).map fun p => { s with pool := p }

/-- Actions that meet nothing of the transport in freed memory. -/
def quiet {ρ ψ : Type} (as : List (Action ρ ψ)) : List (Action ρ ψ × Found ρ ψ) := as.map fun a => (a, {})

/-- The action writes to no freed context, and issues and counts no task from freed arguments. -/
def NoMisuse (s : Sys ρ ψ) (x : Action ρ ψ × Found ρ ψ) : Prop := s.stray x.1 = none ∧ s.misuse x.1 = none

instance decidableNoMisuse (s : Sys ρ ψ) (x : Action ρ ψ × Found ρ ψ) : Decidable (NoMisuse s x) :=
  inferInstanceAs (Decidable (_ ∧ _))

/-- Other requests than `q` make no such use of freed memory. -/
def OthersSound (args : ρ → Request) (q : ρ) (s : Sys ρ ψ) (x : Action ρ ψ × Found ρ ψ) : Prop :=
  (∀ e ∈ s.stray x.1, e.1 = (args q).key) ∧ ∀ q' ∈ s.misuse x.1, q' = q

instance decidableOthersSound (args : ρ → Request) (q : ρ) (s : Sys ρ ψ) (x : Action ρ ψ × Found ρ ψ) :
    Decidable (OthersSound args q s x) :=
  inferInstanceAs (Decidable (_ ∧ _))

variable {args : ρ → Request} {s s' : Sys ρ ψ} {x : Action ρ ψ × Found ρ ψ} {xs : List (Action ρ ψ × Found ρ ψ)}

theorem memStep_of_noMisuse (h : NoMisuse s x) : memStep args s x = step args s x.1 := by
  unfold memStep
  rw [if_pos h.1, h.2]

open Lts

/-- A run that makes no such use of freed memory is a run of `step`. -/
theorem exec_memStep (h : exec (memStep args) start xs = some s) (hC : Along (memStep args) NoMisuse start xs) :
    exec (step args) start (xs.map Prod.fst) = some s :=
  (exec_map (fun _ _ => memStep_of_noMisuse) hC).trans h

theorem exec_quiet {as : List (Action ρ ψ)} (hC : Along (memStep args) NoMisuse s (quiet as)) :
    exec (memStep args) s (quiet as) = some s' ↔ exec (step args) s as = some s' := by
  rw [← exec_map (fun _ _ => memStep_of_noMisuse) hC, quiet, List.map_map]
  exact Eq.congr_left (congrArg _ (List.map_id as))

end Sys
end OsTransport
