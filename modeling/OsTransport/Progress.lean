import OsTransport.TransportLink

/-!
# The execution of one request

`Progress` is what matters of the system for what a request has done so far: its own state, which of its
tasks run and where in the task function they stand, and which have returned. `Progress.Move` is what the
steps of the system do to it, and `Sys.move` refines the system into it. `Progress.Run` says that at most
one of the tasks runs; `Progress.Traced` that the tasks were executed in the order in which they were
taken.
-/

namespace OsTransport

structure Progress (ρ ψ : Type) where
  transfer : Transfer
  run : Fin 64 → Option (ThreadPoolTask (Tid ρ ψ) (TaskArg ρ) Empty × TaskPc)
  returned : List (ThreadPoolTask (Tid ρ ψ) (TaskArg ρ) Empty)

namespace Progress
variable {ρ ψ : Type}
open Function (update)

/-- What a step of the system does to a request. -/
inductive Move (a : Request) (q : ρ) (v : Progress ρ ψ) : Action ρ ψ → Progress ρ ψ → Prop
  | refl (act : Action ρ ψ) : Move a q v act v
  /-- the call moves on without a write of its own -/
  | caller (act : Action ρ ψ) (pc : CallerPc) (posts : List (JfrWr × Bool))
      (hc : ∀ ok, v.transfer.caller ≠ .returned true ok) :
      Move a q v act { v with transfer := { v.transfer with caller := pc, recvPosts := posts } }
  | register (act : Action ρ ψ) (hc : v.transfer.caller = .idle) :
      Move a q v act { v with transfer := { v.transfer with
        caller := .registering
        sync := { v.transfer.sync with totalTasks := (a.taskArgs q).length } } }
  | single (o : Oracle) (hc : v.transfer.caller = .idle) (hlen : a.len ≠ 0) (ht : a.type = .send)
      (hle : a.len.toNat ≤ defaultChunkSize) :
      Move a q v (.call q o) { v with transfer := { v.transfer with
        caller := .returned false o.ok, ops := v.transfer.ops ++ [.firstPost a.singleWr o.ok] } }
  | firstPost (o : Oracle) (i : Nat) (hc : v.transfer.caller = .posting i) (ht : a.type = .send) :
      Move a q v (.caller q o) { v with transfer := { v.transfer with
        caller := if o.ok then .returned true true else .failing
        ops := v.transfer.ops ++ [.firstPost a.firstWr o.ok] } }
  | fail (act : Action ρ ψ) (hc : v.transfer.caller = .failing) :
      Move a q v act { v with transfer := { v.transfer with
        caller := .returned true false, sync := { v.transfer.sync with requestCompleted := true } } }
  | wait (hc : ∃ ok, v.transfer.caller = .returned true ok) (hw : v.transfer.waiter = .idle) :
      Move a q v (.wait q) { v with transfer := { v.transfer with waiter := .waiting } }
  | wake (o : Oracle) (hw : v.transfer.waiter = .waiting)
      (hr : v.transfer.sync.requestCompleted = true) :
      Move a q v (.waiter q o) { v with transfer := { v.transfer with waiter := .checking } }
  | success (o : Oracle) (hw : v.transfer.waiter = .checking)
      (he : v.transfer.sync.completedTasks = v.transfer.sync.totalTasks) :
      Move a q v (.waiter q o) { v with transfer := { v.transfer with waiter := .freeing true } }
  | cancel (o : Oracle) (hw : v.transfer.waiter = .checking)
      (he : v.transfer.sync.completedTasks ≠ v.transfer.sync.totalTasks) :
      Move a q v (.waiter q o) { v with transfer := { v.transfer with waiter := .cancelling } }
  | cancelled (o : Oracle) (hw : v.transfer.waiter = .cancelling) :
      Move a q v (.waiter q o) { v with transfer := { v.transfer with waiter := .freeing false } }
  | free (o : Oracle) (ok : Bool) (hw : v.transfer.waiter = .freeing ok) :
      Move a q v (.waiter q o) { v with transfer := { v.transfer with waiter := .returned ok, freed := true } }
  /-- a worker has taken a task of the request -/
  | take (i : Fin 64) (o : Oracle) (task : ThreadPoolTask (Tid ρ ψ) (TaskArg ρ) Empty) (hr : v.run i = none) :
      Move a q v (.worker i o) { v with run := update v.run i (some (task, .issue)) }
  | stay (i : Fin 64) (o : Oracle) (task : ThreadPoolTask (Tid ρ ψ) (TaskArg ρ) Empty) (pc pc' : TaskPc)
      (x : Transfer) (hr : v.run i = some (task, pc))
      (hs : Sys.Stay a task.taskArg.userArg o v.transfer pc pc' x) :
      Move a q v (.worker i o) { v with transfer := x, run := update v.run i (some (task, pc')) }
  | leave (i : Fin 64) (o : Oracle) (task : ThreadPoolTask (Tid ρ ψ) (TaskArg ρ) Empty) (pc : TaskPc)
      (x : Transfer) (hr : v.run i = some (task, pc))
      (hl : Sys.Leave task.taskArg.userArg v.transfer pc x) :
      Move a q v (.worker i o)
        { transfer := x, run := update v.run i none, returned := v.returned ++ [task] }

end Progress

namespace WorkerPc
variable {τ α κ : Type} [DecidableEq τ]

/-- The task of `t` whose function is running. -/
def currentOf (t : τ) : WorkerPc τ α κ → Option (ThreadPoolTask τ α κ)
  | .func task => if task.owner = t then some task else none
  | _ => none

theorem currentOf_eq_some {t : τ} {pc : WorkerPc τ α κ} {task : ThreadPoolTask τ α κ} :
    pc.currentOf t = some task ↔ pc = .func task ∧ task.owner = t := by
  cases pc with
  | func x =>
    simp only [currentOf, Option.ite_none_right_eq_some, Option.some.injEq, WorkerPc.func.injEq]
    constructor
    · rintro ⟨h, rfl⟩; exact ⟨rfl, h⟩
    · rintro ⟨rfl, h⟩; exact ⟨h, rfl⟩
  | _ => simp [currentOf]

end WorkerPc

namespace PoolSys
variable {τ α κ : Type} [DecidableEq τ] {s s' : PoolSys τ α κ}

theorem worker_func {i : Fin 64} {o : Oracle} (h : s.step (.worker i o) = some s') :
    (∃ task, (s.pool.workers i).pc = .func task ∧ (s'.pool.workers i).pc = .complete task ∧
      s'.pool.hist.returned = s.pool.hist.returned ++ [task]) ∨
    (∀ task, (s.pool.workers i).pc ≠ .func task) ∧ s'.pool.hist.returned = s.pool.hist.returned := by
  cases step_cases h with
  | worker j o p hp =>
    cases hp with
    | func task hpc => exact .inl ⟨task, hpc, by simp [Pool.setPc], rfl⟩
    | _ => exact .inr ⟨fun task ht => by simp_all, rfl⟩

theorem returned_of_ne {a : Act τ α κ} (h : s.step a = some s') (ha : ∀ i o, a ≠ .worker i o) :
    s'.pool.hist.returned = s.pool.hist.returned := by
  cases step_cases h with
  | call u c o hu => rfl
  | worker i o p hp => exact absurd rfl (ha i o)
  | thread u o p pc hp =>
    generalize s.threads u = pc₀ at hp
    cases hp with
    | cancelUpdate r ctx n c hd => simp only [setThread]; split <;> rfl
    | cancelUpdateDangling r ctx n hd => simp only [setThread]; split <;> rfl
    | _ => rfl

end PoolSys

namespace Sys
variable {ρ ψ : Type} [DecidableEq ρ] [DecidableEq ψ] {args : ρ → Request}

/-- The system as request `q` sees it. -/
def progress (s : Sys ρ ψ) (q : ρ) : Progress ρ ψ where
  transfer := s.transfers q
  run i := ((s.pool.pool.workers i).pc.currentOf (.caller q)).map fun task => (task, s.taskPc i)
  returned := s.pool.pool.hist.returned.filter fun task => task.owner == .caller q

theorem progress_congr {s u : Sys ρ ψ} (hpc : ∀ i, (u.pool.pool.workers i).pc = (s.pool.pool.workers i).pc)
    (ht : u.taskPc = s.taskPc) (hr : u.pool.pool.hist.returned = s.pool.pool.hist.returned) (q : ρ) :
    u.progress q = { s.progress q with transfer := u.transfers q } := by
  simp only [progress, hpc, ht, hr]

theorem run_eq_some {s : Sys ρ ψ} {q : ρ} {i : Fin 64} {task : ThreadPoolTask (Tid ρ ψ) (TaskArg ρ) Empty}
    {pc : TaskPc} : (s.progress q).run i = some (task, pc) ↔
      (s.pool.pool.workers i).pc = .func task ∧ task.owner = .caller q ∧ s.taskPc i = pc := by
  simp only [progress, Option.map_eq_some_iff, WorkerPc.currentOf_eq_some, Prod.mk.injEq]
  constructor
  · rintro ⟨x, ⟨hpc, ho⟩, rfl, rfl⟩; exact ⟨hpc, ho, rfl⟩
  · rintro ⟨hpc, ho, rfl⟩; exact ⟨task, ⟨hpc, ho⟩, rfl, rfl⟩

theorem run_eq_none {s : Sys ρ ψ} {q : ρ} {i : Fin 64} : (s.progress q).run i = none ↔
    ∀ task, (s.pool.pool.workers i).pc = .func task → task.owner ≠ .caller q := by
  rw [Option.eq_none_iff_forall_ne_some]
  constructor
  · exact fun h task hpc ho => h (task, s.taskPc i) (run_eq_some.2 ⟨hpc, ho, rfl⟩)
  · rintro h ⟨task, pc⟩ he
    obtain ⟨hpc, ho, -⟩ := run_eq_some.1 he
    exact h task hpc ho

theorem progress_worker {s u : Sys ρ ψ} {i : Fin 64} {q : ρ} {x : Transfer}
    {r : Option (ThreadPoolTask (Tid ρ ψ) (TaskArg ρ) Empty × TaskPc)}
    {l : List (ThreadPoolTask (Tid ρ ψ) (TaskArg ρ) Empty)}
    (hpc : ∀ j, j ≠ i → (u.pool.pool.workers j).pc = (s.pool.pool.workers j).pc)
    (ht : ∀ j, j ≠ i → u.taskPc j = s.taskPc j) (hx : u.transfers q = x)
    (hr : (u.progress q).run i = r) (hret : (u.progress q).returned = l) :
    u.progress q = ⟨x, Function.update (s.progress q).run i r, l⟩ := by
  have hrun : (u.progress q).run = Function.update (s.progress q).run i r := by
    funext j
    rcases eq_or_ne j i with rfl | hj
    · rw [Function.update_self, hr]
    · rw [Function.update_of_ne hj]
      simp only [progress, hpc j hj, ht j hj]
  rw [← hrun, ← hret, ← hx]
  rfl

/-- Every step of the system is a step of every request. -/
theorem move {s s' : Sys ρ ψ} {a : Action ρ ψ} (h : Linked args s) (hs : step args s a = some s') (q : ρ) :
    Progress.Move (args q) q (s.progress q) a (s'.progress q) := by
  -- a step of the pool that is not of a worker
  have hpool : ∀ {pa : Act (Tid ρ ψ) (TaskArg ρ) Empty} {p} {x : ρ → Transfer}, s.pool.step pa = some p →
      (∀ i o, pa ≠ .worker i o) → Sys.progress ⟨p, x, s.taskPc⟩ q = { s.progress q with transfer := x q } :=
    fun {pa p x} hp ha => progress_congr (u := ⟨p, x, s.taskPc⟩)
      (fun i => PoolSys.pc_of_ne hp (ha i)) rfl (PoolSys.returned_of_ne hp ha) q
  -- a change of one request
  have hset : ∀ {q₀ : ρ} {x : Transfer} {v : Progress ρ ψ},
      (q = q₀ → Progress.Move (args q) q (s.progress q) a { s.progress q with transfer := x }) →
      v = { s.progress q with transfer := (s.setTransfer q₀ x).transfers q } →
      Progress.Move (args q) q (s.progress q) a v := fun {q₀ x v} h₁ hv => by
    rw [hv, setTransfer_transfers]
    split
    · exact h₁ ‹_›
    · exact .refl a
  have hsame : ∀ {q₀ : ρ} {x : Transfer},
      (q = q₀ → Progress.Move (args q) q (s.progress q) a { s.progress q with transfer := x }) →
      Progress.Move (args q) q (s.progress q) a ((s.setTransfer q₀ x).progress q) := fun h₁ => hset h₁ rfl
  -- a step of a worker, and what another request sees of it
  have hworker : ∀ {i o p}, s.pool.step (.worker i o) = some p →
      ∀ j, j ≠ i → (p.pool.workers j).pc = (s.pool.pool.workers j).pc := fun hp j hj =>
    PoolSys.pc_of_ne hp fun o e => hj (Act.worker.inj e).1.symm
  have hother : ∀ {i task q₁}, (s.pool.pool.workers i).pc = .func task → task.owner = .caller q₁ →
      q ≠ q₁ → (s.progress q).run i = none := fun {i task q₁} hpc ho hne =>
    run_eq_none.2 fun task' ht' ho' => by
      obtain rfl : task = task' := WorkerPc.func.inj (hpc.symm.trans ht')
      exact hne (Tid.caller.inj (ho'.symm.trans ho))
  cases step_cases hs with
  | reject q₀ o hc => exact hsame fun e => by subst e; exact .caller _ _ _ (by simp [progress, hc])
  | single q₀ o hc hlen ht hle => exact hsame fun e => by subst e; exact .single o hc hlen ht hle
  | register q₀ o p hc hlen hlt ho hp =>
    refine hset (fun e => ?_) (hpool hp (by simp))
    subst e; exact .register _ hc
  | submit q₀ o p hc hp => rw [hpool hp (by simp)]; exact .refl _
  | registered q₀ o ids hc ht => exact hsame fun e => by subst e; exact .caller _ _ _ (by simp [progress, hc])
  | refused q₀ o ret hc ht hret => exact hsame fun e => by subst e; exact .caller _ _ _ (by simp [progress, hc])
  | firstPost q₀ o i hc ht => exact hsame fun e => by subst e; exact .firstPost o i hc ht
  | recvPost q₀ o i pc hc ht hpc => exact hsame fun e => by subst e; exact .caller _ _ _ (by simp [progress, hc])
  | fail q₀ o hc => exact hsame fun e => by subst e; exact .fail _ hc
  | wait q₀ ok hc hw => exact hsame fun e => by subst e; exact .wait ⟨ok, hc⟩ hw
  | wake q₀ o hw hr => exact hsame fun e => by subst e; exact .wake o hw hr
  | success q₀ o hw he => exact hsame fun e => by subst e; exact .success o hw he
  | cancel q₀ o p hw he hp =>
    refine hset (fun e => ?_) (hpool hp (by simp))
    subst e; exact .cancel o hw he
  | cancelling q₀ o p hw hp => rw [hpool hp (by simp)]; exact .refl _
  | cancelled q₀ o ret hw ht => exact hsame fun e => by subst e; exact .cancelled o hw
  | free q₀ o ok hw => exact hsame fun e => by subst e; exact .free o ok hw
  | wakeUpTask k cr o r p hr hp => rw [hpool hp (by simp)]; exact .refl _
  | unknown k cr o hr => exact .refl _
  | poller k o p hp => rw [hpool hp (by simp)]; exact .refl _
  | worker i o p hpc hp =>
    have hret : (Sys.progress ⟨p, s.transfers, s.taskPc⟩ q).returned = (s.progress q).returned := by
      obtain ⟨task, ht, -⟩ | ⟨-, hr⟩ := PoolSys.worker_func hp
      · exact absurd ht (hpc task)
      · simp only [progress, hr]
    have hnone : (s.progress q).run i = none := run_eq_none.2 fun task ht => absurd ht (hpc task)
    have hview := fun r (hr : (Sys.progress ⟨p, s.transfers, s.taskPc⟩ q).run i = r) =>
      progress_worker (s := s) (u := ⟨p, s.transfers, s.taskPc⟩) (i := i) (hworker hp) (fun _ _ => rfl) rfl
        hr hret
    cases hi : (Sys.progress ⟨p, s.transfers, s.taskPc⟩ q).run i with
    | none =>
      rw [hview _ hi, ← hnone, Function.update_eq_self]
      exact .refl _
    | some y =>
      obtain ⟨task, pc⟩ := y
      obtain ⟨-, -, rfl⟩ := run_eq_some.1 hi
      rw [hview _ hi, show Sys.taskPc ⟨p, s.transfers, s.taskPc⟩ i = .issue from h.taskPc i hpc]
      exact .take i o task hnone
  | stay i o task q₀ pc x hpc hq₀ hst =>
    obtain ⟨q₁, ho, -, hmem, -⟩ := h.task (.inr hpc)
    obtain rfl : q₁ = q₀ := (sync_of_mem hmem).symm.trans hq₀
    have hview := fun x' hx' r hr => progress_worker (s := s) (u := (s.setTransfer q₁ x).setTaskPc i pc)
      (i := i) (q := q) (x := x') (r := r) (fun _ _ => rfl) (fun j hj => Function.update_of_ne hj ..) hx' hr rfl
    rcases eq_or_ne q q₁ with rfl | hne
    · rw [hview x (Function.update_self ..) (some (task, pc))
        (run_eq_some.2 ⟨hpc, ho, Function.update_self ..⟩)]
      exact .stay i o task _ pc x (run_eq_some.2 ⟨hpc, ho, rfl⟩) hst
    · have hnone : (s.progress q).run i = none := hother hpc ho hne
      rw [hview (s.transfers q) (Function.update_of_ne hne ..) none
        (run_eq_none.2 fun task' ht' => run_eq_none.1 hnone task' ht'), ← hnone, Function.update_eq_self]
      exact .refl _
  | leave i o task q₀ x p hpc hq₀ hl hp =>
    obtain ⟨q₁, ho, -, hmem, -⟩ := h.task (.inr hpc)
    obtain rfl : q₁ = q₀ := (sync_of_mem hmem).symm.trans hq₀
    obtain ⟨task', ht', hpc', hret⟩ := (PoolSys.worker_func hp).resolve_right fun h => h.1 task hpc
    obtain rfl : task = task' := WorkerPc.func.inj (hpc.symm.trans ht')
    have hnone : (Sys.progress (({ s with pool := p }.setTransfer q₁ x).setTaskPc i .issue) q).run i = none :=
      run_eq_none.2 fun task' ht' => by
        rw [show (p.pool.workers i).pc = .func task' from ht'] at hpc'
        cases hpc'
    have hview := fun x' hx' ret hret => progress_worker (s := s)
      (u := ({ s with pool := p }.setTransfer q₁ x).setTaskPc i .issue) (i := i) (q := q) (x := x')
      (l := ret) (hworker hp) (fun j hj => Function.update_of_ne hj ..) hx' hnone hret
    rcases eq_or_ne q q₁ with rfl | hne
    · rw [hview x (Function.update_self ..) ((s.progress q).returned ++ [task]) ?_]
      · exact .leave i o task _ x (run_eq_some.2 ⟨hpc, ho, rfl⟩) hl
      · change (p.pool.hist.returned.filter fun task => task.owner == .caller q) = _
        rw [hret, List.filter_append, List.filter_cons_of_pos (by simpa using ho)]
        rfl
    · have hnone' : (s.progress q).run i = none := hother hpc ho hne
      rw [hview (s.transfers q) (Function.update_of_ne hne ..) (s.progress q).returned ?_, ← hnone',
        Function.update_eq_self]
      · exact .refl _
      · change (p.pool.hist.returned.filter fun task => task.owner == .caller q) = _
        rw [hret, List.filter_append, List.filter_cons_of_neg, List.filter_nil, List.append_nil]
        · rfl
        · simpa [ho] using Ne.symm hne

namespace Linked
variable {s : Sys ρ ψ} {q : ρ}

/-- The tasks taken are those that have returned and the one that runs. -/
theorem executed (h : Linked args s) (hacc : (s.pool.threads (.caller q)).accepted = true) :
    ∃ w nodes pre suf, TasksOf (args q) q nodes ∧
      (s.pool.pool.lane (.caller q)).Split (fun task => task.requestId) w nodes pre suf ∧
      (∀ i, i ≠ w → (s.progress q).run i = none) ∧
      ((s.progress q).returned = pre ∧ (s.progress q).run w = none ∨
        ∃ task, (s.progress q).returned ++ [task] = pre ∧ (s.progress q).run w = some (task, s.taskPc w)) := by
  obtain ⟨w, nodes, pre, suf, hof, hsplit⟩ := h.split hacc
  -- what the lane calls running is what the request calls running
  have hnone : ∀ i, (s.pool.pool.lane (.caller q)).running i = [] → (s.progress q).run i = none := fun i hi =>
    run_eq_none.2 fun task hpc ho => by simp [Pool.lane, hpc, ho] at hi
  refine ⟨w, nodes, pre, suf, hof, hsplit, fun i hi => hnone i (hsplit.elsewhere i hi).2, ?_⟩
  have hexec : (s.progress q).returned ++ (s.pool.pool.lane (.caller q)).running w = pre := hsplit.executed
  cases hpc : (s.pool.pool.workers w).pc with
  | func task =>
    by_cases ho : task.owner = .caller q
    · refine .inr ⟨task, ?_, run_eq_some.2 ⟨hpc, ho, rfl⟩⟩
      simpa [Pool.lane, hpc, ho] using hexec
    · refine .inl ⟨?_, run_eq_none.2 fun task' ht' => ?_⟩
      · simpa [Pool.lane, hpc, ho] using hexec
      · obtain rfl : task = task' := WorkerPc.func.inj (hpc.symm.trans ht')
        exact ho
  | _ =>
    refine .inl ⟨?_, run_eq_none.2 fun task' ht' => by simp [hpc] at ht'⟩
    simpa [Pool.lane, hpc, WorkerPc.current] using hexec

theorem unaccepted (h : Linked args s) (hacc : (s.pool.threads (.caller q)).accepted = false) :
    (s.progress q).returned = [] ∧ ∀ i, (s.progress q).run i = none := by
  have hun := (h.tracked (.caller q)).unused hacc
  refine ⟨hun.returned, fun i => run_eq_none.2 fun task hpc ho => ?_⟩
  have := hun.running i
  simp [Pool.lane, hpc, ho] at this

end Linked
end Sys

namespace Progress
variable {ρ ψ : Type}

/-- At most one task of the request runs. -/
def Single (v : Progress ρ ψ) : Prop := ∀ i j x y, v.run i = some x → v.run j = some y → i = j

/-- The operation is done by a worker. -/
def byWorker : Op → Bool
  | .firstPost .. => false
  | _ => true

/-- What workers have done for the request. -/
def workerOps (x : Transfer) : List Op := x.ops.filter byWorker

theorem workerOps_snoc (x : Transfer) {op : Op} (h : byWorker op = true) :
    workerOps { x with ops := x.ops ++ [op] } = workerOps x ++ [op] := by
  simp [workerOps, List.filter_append, h]

theorem byWorker_issueOp {ρ : Type} (a : Request) (arg : TaskArg ρ) (ok : Bool) :
    byWorker (Sys.issueOp a arg ok) = true := by
  unfold Sys.issueOp
  cases arg.info <;> rfl

section
variable {β : Type} {acc : Transfer → List β} {full : ThreadPoolTask (Tid ρ ψ) (TaskArg ρ) Empty → List β}
  {part : ThreadPoolTask (Tid ρ ψ) (TaskArg ρ) Empty → TaskPc → List β} {a : Request} {q : ρ}
  {act : Action ρ ψ} {v v' : Progress ρ ψ}

/-- `acc` has gathered what each returned task leaves, and what the running one has left so far. -/
structure Gathers (acc : Transfer → List β) (full : ThreadPoolTask (Tid ρ ψ) (TaskArg ρ) Empty → List β)
    (part : ThreadPoolTask (Tid ρ ψ) (TaskArg ρ) Empty → TaskPc → List β) (v : Progress ρ ψ) : Prop where
  idle : (∀ i, v.run i = none) → acc v.transfer = v.returned.flatMap full
  busy : ∀ i task pc, v.run i = some (task, pc) → acc v.transfer = v.returned.flatMap full ++ part task pc

/-- A request gathers as soon as every part of the task function leaves what it should. -/
theorem Gathers.step (h : Gathers acc full part v) (hu : v.Single) (hu' : v'.Single)
    (hm : Move a q v act v')
    (hacc : ∀ x x', workerOps x' = workerOps x → x'.sync.completedTasks = x.sync.completedTasks →
      acc x' = acc x)
    (hnew : ∀ task, part task .issue = [])
    (hstay : ∀ i o task pc pc' x', act = .worker i o → v.run i = some (task, pc) →
      Sys.Stay a task.taskArg.userArg o v.transfer pc pc' x' →
      acc v.transfer = v.returned.flatMap full ++ part task pc →
      acc x' = v.returned.flatMap full ++ part task pc')
    (hleave : ∀ i o task pc x', act = .worker i o → v.run i = some (task, pc) →
      Sys.Leave task.taskArg.userArg v.transfer pc x' →
      acc v.transfer = v.returned.flatMap full ++ part task pc →
      acc x' = v.returned.flatMap full ++ full task) : Gathers acc full part v' := by
  have hsame : ∀ {x}, workerOps x = workerOps v.transfer →
      x.sync.completedTasks = v.transfer.sync.completedTasks → Gathers acc full part { v with transfer := x } :=
    fun ho hc => ⟨fun hi => (hacc _ _ ho hc).trans (h.idle hi),
      fun i task pc hi => (hacc _ _ ho hc).trans (h.busy i task pc hi)⟩
  cases hm with
  | refl => exact h
  | single o hc hlen ht hle => exact hsame (by simp [workerOps, byWorker]) rfl
  | firstPost o i hc ht => exact hsame (by simp [workerOps, byWorker]) rfl
  | take i o task hr =>
    -- before, no task was running
    have hnone : ∀ j, v.run j = none := fun j => by
      rcases eq_or_ne j i with rfl | hj
      · exact hr
      · cases hvj : v.run j with
        | none => rfl
        | some y =>
          exact absurd (hu' j i y (task, .issue) ((Function.update_of_ne hj ..).trans hvj)
            (Function.update_self ..)) hj
    refine ⟨fun hi => absurd ((Function.update_self ..).symm.trans (hi i)) (by simp), fun j task' pc hj => ?_⟩
    replace hj : Function.update v.run i (some (task, .issue)) j = some (task', pc) := hj
    rcases eq_or_ne j i with rfl | hji
    · rw [Function.update_self] at hj
      cases hj
      rw [hnew, List.append_nil]
      exact h.idle hnone
    · rw [Function.update_of_ne hji, hnone j] at hj
      cases hj
  | stay i o task pc pc' x hr hs =>
    refine ⟨fun hi => absurd ((Function.update_self ..).symm.trans (hi i)) (by simp), fun j task' pc'' hj => ?_⟩
    replace hj : Function.update v.run i (some (task, pc')) j = some (task', pc'') := hj
    rcases eq_or_ne j i with rfl | hji
    · rw [Function.update_self] at hj
      cases hj
      exact hstay j o task pc pc' x rfl hr hs (h.busy j task pc hr)
    · rw [Function.update_of_ne hji] at hj
      exact absurd (hu j i _ _ hj hr) hji
  | leave i o task pc x hr hl =>
    have hx := hleave i o task pc x rfl hr hl (h.busy i task pc hr)
    refine ⟨fun _ => ?_, fun j task' pc' hj => ?_⟩
    · show acc x = (v.returned ++ [task]).flatMap full
      rw [hx, List.flatMap_append]
      simp
    · replace hj : Function.update v.run i none j = some (task', pc') := hj
      rcases eq_or_ne j i with rfl | hji
      · rw [Function.update_self] at hj; cases hj
      · rw [Function.update_of_ne hji] at hj
        exact absurd (hu j i _ _ hj hr) hji
  | _ => exact hsame rfl rfl

end

/-- The chunk a worker has sent or copied, or has meant to. -/
def issued? : Op → Option Nat
  | .post chunk .. | .copy chunk .. | .wild chunk => some chunk
  | _ => none

/-- The chunks of the tasks are issued in the order in which the tasks were taken. -/
def Traced (v : Progress ρ ψ) : Prop :=
  Gathers (fun x => (workerOps x).filterMap issued?) (fun task => [task.taskArg.userArg.chunkInfo])
    (fun task pc => if pc = .issue then [] else [task.taskArg.userArg.chunkInfo]) v

theorem Traced.step {a : Request} {q : ρ} {act : Action ρ ψ} {v v' : Progress ρ ψ} (h : v.Traced)
    (hu : v.Single) (hu' : v'.Single) (hm : Move a q v act v') : v'.Traced := by
  refine Gathers.step h hu hu' hm (fun x x' ho _ => by simp only [ho]) (fun task => if_pos rfl)
    (fun i o task pc pc' x' _ _ hs hx => ?_) fun i o task pc x' _ _ hl hx => ?_
  · cases hs with
    | issue hf =>
      have hi : issued? (Sys.issueOp a task.taskArg.userArg o.ok) = some task.taskArg.userArg.chunkInfo := by
        unfold Sys.issueOp
        cases task.taskArg.userArg.info <;> rfl
      simp only [workerOps_snoc _ (byWorker_issueOp ..), List.filterMap_append, hx]
      simp [hi]
    | mark ok r hi hf => simpa [workerOps] using hx
    | last hl hf => simpa using hx
    | stream hf => simpa using hx
    | event hf => simpa using hx
  · cases hl with
    | record =>
      simp only [workerOps_snoc _ (show byWorker .record = true from rfl), List.filterMap_append, hx]
      simp [issued?]
    | wild hf =>
      simp only [workerOps_snoc _ (show byWorker (.wild _) = true from rfl), List.filterMap_append, hx]
      simp [issued?]
    | stale pc hpc hf =>
      simp only [workerOps_snoc _ (show byWorker (.stale _) = true from rfl), List.filterMap_append, hx]
      simp [issued?, hpc.1]
    | mark ok info hi hf => simpa [workerOps] using hx
    | notLast hl hf => simpa using hx

end Progress

namespace Sys.Linked
variable {ρ ψ : Type} [DecidableEq ρ] [DecidableEq ψ] {args : ρ → Request} {s : Sys ρ ψ} {q : ρ}

theorem single (h : Linked args s) (q : ρ) : (s.progress q).Single := by
  intro i j x y hi hj
  cases hacc : (s.pool.threads (.caller q)).accepted with
  | false =>
    rw [(h.unaccepted hacc).2 i] at hi
    cases hi
  | true =>
    obtain ⟨w, -, -, -, -, -, hne, -⟩ := h.executed hacc
    have hw : ∀ k z, (s.progress q).run k = some z → k = w := fun k z hk => by
      by_contra hkw
      rw [hne k hkw] at hk
      cases hk
    rw [hw i x hi, hw j y hj]

theorem accepted_of_run (h : Linked args s) {i : Fin 64} {x} (hi : (s.progress q).run i = some x) :
    (s.pool.threads (.caller q)).accepted = true := by
  by_contra hacc
  rw [(h.unaccepted (by simpa using hacc)).2 i] at hi
  cases hi

theorem total (h : Linked args s) (hacc : (s.pool.threads (.caller q)).accepted = true) :
    (s.transfers q).sync.totalTasks = ((args q).taskArgs q).length := by
  have hcaller := (h.request q).caller
  refine (h.request q).total_of (fun hc => ?_) fun ok hc => ?_ <;> rw [hc] at hcaller
  · rw [show s.pool.threads (.caller q) = .idle from hcaller] at hacc
    cases hacc
  · rcases hcaller with hc | ⟨ret, hc, hret⟩ <;> rw [hc] at hacc
    · cases hacc
    · cases ret with
      | ids ids => exact hret ids rfl
      | _ => cases hacc

theorem returned_lt (h : Linked args s) {i : Fin 64} {x} (hi : (s.progress q).run i = some x) :
    (s.progress q).returned.length < (s.transfers q).sync.totalTasks := by
  have hacc := h.accepted_of_run hi
  obtain ⟨w, nodes, pre, suf, hof, hsplit, hne, hexec⟩ := h.executed hacc
  have hw : i = w := by
    by_contra hiw
    rw [hne i hiw] at hi
    cases hi
  rcases hexec with ⟨-, hrun⟩ | ⟨task, hpre, -⟩
  · rw [← hw, hi] at hrun; cases hrun
  · rw [h.total hacc, ← hof.length, hsplit.append, ← hpre]
    simp only [List.length_append, List.length_cons, List.length_nil]
    omega

end Sys.Linked
end OsTransport
