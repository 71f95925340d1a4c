import OsTransport.Lib.Run
import OsTransport.ThreadPoolStep

/-!
# Context pointers that outlive their contexts

`pending_count` is written through a pointer that `find_req_context` returned in an earlier section, and by then another
thread may have freed the context (`PoolSys.stray`). `PoolSys.step` drops such a write. In memory it falls on what
`malloc` has made of the block since: a `ThreadPoolTask` has the size of a `RequestContext` and its `request_id` lies
where `pending_count` lay. `PoolSys.memStep` is the step with that write. Which object has the block is up to `malloc`, so
an action comes with the `Tenant` that it meets there. A run without such a write is a run of `PoolSys.step`
(`exec_memStep`). Reads through such a pointer are in `Oracle`; a `worker_idx` read there is taken to be an index of the
array, since any other one makes the process access memory outside of it.
-/

namespace OsTransport

/-- What the block of a freed `RequestContext` is used for. -/
inductive Tenant (τ : Type)
  /-- nothing that the pool reads -/
  | other
  /-- the `index`-th task of the call `owner` -/
  | task (owner : τ) (index : Nat)
  /-- the context that the call `owner` has made -/
  | context (requestId : UInt32) (owner : τ)
deriving DecidableEq

/-- The tasks that a call has made and not attached yet, each changed by `f`. -/
def Pc.mapNodes {τ α κ : Type} (f : ThreadPoolTask τ α κ → ThreadPoolTask τ α κ) : Pc τ α κ → Pc τ α κ
  | .select b nodes i best minLoad => .select b (nodes.map f) i best minLoad
  | .create b worker nodes => .create b worker (nodes.map f)
  | .attach b worker nodes => .attach b worker (nodes.map f)
  | pc => pc

namespace PoolSys
variable {τ α κ : Type} [DecidableEq τ]

/-- The write to `pending_count` that a section makes: request id and owner of the pointer, and what it adds. -/
def write (s : PoolSys τ α κ) : Act τ α κ → Option (UInt32 × τ × Int32)
  | .call .. => none
  | .thread t _ =>
    match s.threads t with
    | .bump b _ ctx => some (b.requestId, ctx, b.count.toInt32)
    | .cancelUpdate r ctx n => some (r, ctx, -n.toInt32)
    | _ => none
  | .worker i _ =>
    match (s.pool.workers i).pc with
    | .dec task ctx => some (task.requestId, ctx, -1)
    | _ => none

/-- That write when the context has been freed. -/
def stray (s : PoolSys τ α κ) (a : Act τ α κ) : Option (UInt32 × τ × Int32) :=
  (s.write a).filter fun (r, ctx, _) => (s.pool.deref r ctx).isNone

/-- `d` is added at the place of `pending_count` in the block. A worker does not read the `request_id` of the task it
executes again. -/
def strike (s : PoolSys τ α κ) (d : Int32) : Tenant τ → PoolSys τ α κ
  | .other => s
  | .task t k =>
    let hit (task : ThreadPoolTask τ α κ) : ThreadPoolTask τ α κ :=
      if task.owner = t ∧ task.index = k then { task with requestId := task.requestId + d.toUInt32 } else task
    { pool := { s.pool with
        workers := fun i => { s.pool.workers i with queue := (s.pool.workers i).queue.map hit } }
      threads := fun u => (s.threads u).mapNodes hit }
  | .context r t => { s with pool := s.pool.addPending r t d }

/-- The context in the block. -/
def tenant (s : PoolSys τ α κ) : Tenant τ → Option (RequestContext τ κ)
  | .context r t => s.pool.deref r t
  | .other | .task .. => none

/-- Whether the block shows a `pending_count` of 0. -/
def zero (s : PoolSys τ α κ) (v : Tenant τ) (o : Oracle) : Oracle :=
  { o with zero := ((s.tenant v).map fun c => c.pendingCount == 0).getD o.zero }

/-- The section after the write. A worker that counts the block down to 0 reads `batch_cb` there; in a task
`task_func` lies at that place, and the call of it with the task id 0 crashes. -/
def strayStep (s : PoolSys τ α κ) (v : Tenant τ) : Act τ α κ → Option (PoolSys τ α κ)
  | .call .. => none
  | .thread t o => s.step (.thread t (s.zero v o))
  | .worker i o =>
    (s.step (.worker i (s.zero v o))).bind fun s' =>
      match (s'.pool.workers i).pc, v with
      | .remove _, .task .. => none
      | .remove task, .context .. =>
        some { s' with pool := s'.pool.setPc i (.batch task ((s.tenant v).bind (·.batchCb))) }
      | _, _ => some s'

/-- One section, in memory. -/
def memStep (s : PoolSys τ α κ) (x : Act τ α κ × Tenant τ) : Option (PoolSys τ α κ) :=
  match s.stray x.1 with
  | none => s.step x.1
  | some (_, _, d) => (s.strike d x.2).strayStep x.2 x.1

/-- Actions that meet no object of the pool behind a dangling pointer. -/
def quiet {τ α κ : Type} (as : List (Act τ α κ)) : List (Act τ α κ × Tenant τ) := as.map fun a => (a, .other)

/-- The section does not write to a context that has been freed. -/
def NoStray (s : PoolSys τ α κ) (x : Act τ α κ × Tenant τ) : Prop := s.stray x.1 = none

instance decidableNoStray (s : PoolSys τ α κ) (x : Act τ α κ × Tenant τ) : Decidable (NoStray s x) :=
  inferInstanceAs (Decidable (s.stray x.1 = none))

variable {s s' : PoolSys τ α κ} {x : Act τ α κ × Tenant τ} {xs : List (Act τ α κ × Tenant τ)}

theorem memStep_of_noStray (h : NoStray s x) : s.memStep x = s.step x.1 := by
  unfold memStep
  rw [show s.stray x.1 = none from h]

open Lts

/-- A run that makes no write to a freed context is a run of `step`. -/
theorem exec_memStep (h : exec memStep s xs = some s') (hC : Along memStep NoStray s xs) :
    exec step s (xs.map Prod.fst) = some s' :=
  (exec_map (fun _ _ => memStep_of_noStray) hC).trans h

/-- A run of `step` that makes no such write, in memory. -/
theorem exec_quiet {as : List (Act τ α κ)} (hC : Along memStep NoStray s (quiet as)) :
    exec memStep s (quiet as) = some s' ↔ exec step s as = some s' := by
  rw [← exec_map (fun _ _ => memStep_of_noStray) hC, quiet, List.map_map]
  exact Eq.congr_left (congrArg _ (List.map_id as))

theorem along_memStep {C : PoolSys τ α κ → Act τ α κ → Prop}
    (hC : Along memStep (fun s x => NoStray s x ∧ C s x.1) s xs) : Along step C s (xs.map Prod.fst) :=
  hC.map (fun _ _ ha => memStep_of_noStray ha.1) fun _ _ ha => ha.2

end PoolSys
end OsTransport
