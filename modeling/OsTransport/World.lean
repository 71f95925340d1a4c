import OsTransport.Fifo

/-!
# What the callers of the pool see

A `World` is a pool in memory with what is called back and what is handed back during a run. `Watch` records the wrappers
that are through with their `complete_cb`, and the batch callbacks with the submission whose context they came from; the
calls in it are the ones of the pool's history (`World.listed`). A call hands its result back in a step of its own:
`thread_pool_submit_task` reads the id in its task once more, after a worker or a cancel may have freed that task
(`World.late`).
-/

namespace OsTransport
open Lts

/-- The task that a worker has taken and not freed yet. -/
def WorkerPc.holding {τ α κ : Type} : WorkerPc τ α κ → Option (ThreadPoolTask τ α κ)
  | .func task | .complete task | .find task | .dec task _ | .batch task _ | .remove task | .finish task => some task
  | .wait | .exited => none

/-- What the workers have called. -/
structure Watch (τ α κ : Type) where
  /-- tasks whose `complete_cb`, if there is one, has returned -/
  finished : List (ThreadPoolTask τ α κ) := []
  /-- the submission whose context a worker has counted down to 0 -/
  due : Fin 64 → Option τ := fun _ => none
  /-- `batch_cb` calls: the submission, `success`, the callback -/
  batches : List (Option τ × Bool × κ) := []

/-- The `complete_cb` call that `internal_task_wrapper` makes for the task: the task id, `success`, the callback. -/
def ThreadPoolTask.completion {τ α κ : Type} (task : ThreadPoolTask τ α κ) : Option (UInt64 × Bool × κ) :=
  task.taskArg.completeCb.map fun cb => (task.taskArg.taskId, task.taskArg.success, cb)

namespace PoolSys
variable {τ α κ : Type} [DecidableEq τ]

/-- What a step adds to the record. -/
def observe (s : PoolSys τ α κ) (w : Watch τ α κ) : Act τ α κ → Watch τ α κ
  | .worker i _ =>
    match (s.pool.workers i).pc with
    | .complete task => { w with finished := w.finished ++ [task] }
    | .dec _ ctx => { w with due := Function.update w.due i (some ctx) }
    | .batch _ cb => { w with batches := w.batches ++ (cb.map fun cb => (w.due i, true, cb)).toList }
    | _ => w
  | _ => w

/-- The same in memory: a worker whose write meets another context counts that one down. -/
def memObserve (s : PoolSys τ α κ) (w : Watch τ α κ) : Act τ α κ × Tenant τ → Watch τ α κ
  | (.worker i o, .context r t) =>
    if s.stray (.worker i o) = none then observe s w (.worker i o)
    else { w with due := Function.update w.due i ((s.tenant (.context r t)).map (·.owner)) }
  | (a, _) => observe s w a

variable {s s' : PoolSys τ α κ} {w : Watch τ α κ} {a : Act τ α κ} {x : Act τ α κ × Tenant τ}

theorem memObserve_of_noStray (h : NoStray s x) : memObserve s w x = observe s w x.1 := by
  unfold memObserve
  split
  · exact if_pos h
  · rfl

theorem observe_hist (w : Watch τ α κ) (hs : s.step a = some s') : ∃ f b,
    (observe s w a).finished = w.finished ++ f ∧
    s'.pool.hist.completeCbs = s.pool.hist.completeCbs ++ f.filterMap ThreadPoolTask.completion ∧
    (observe s w a).batches = w.batches ++ b ∧
    s'.pool.hist.batchCbs.map Prod.snd = s.pool.hist.batchCbs.map Prod.snd ++ b.map Prod.snd := by
  have hnone : (observe s w a).finished = w.finished → s'.pool.hist.completeCbs = s.pool.hist.completeCbs →
      (observe s w a).batches = w.batches → s'.pool.hist.batchCbs = s.pool.hist.batchCbs → ∃ f b,
      (observe s w a).finished = w.finished ++ f ∧
      s'.pool.hist.completeCbs = s.pool.hist.completeCbs ++ f.filterMap ThreadPoolTask.completion ∧
      (observe s w a).batches = w.batches ++ b ∧
      s'.pool.hist.batchCbs.map Prod.snd = s.pool.hist.batchCbs.map Prod.snd ++ b.map Prod.snd :=
    fun h₁ h₂ h₃ h₄ => ⟨[], [], by simp [h₁], by simp [h₂], by simp [h₃], by simp [h₄]⟩
  cases a with
  | call u c o =>
    cases step_cases hs with
    | call _ _ _ hu => exact hnone rfl rfl rfl rfl
  | thread u o =>
    cases step_cases hs with
    | thread _ _ p pc hp =>
      generalize s.threads u = pc₀ at hp
      refine hnone rfl ?_ rfl ?_ <;>
      · cases hp with
        | cancelUpdate => simp only [setThread_pool]; split <;> rfl
        | cancelUpdateDangling => simp only [setThread_pool]; split <;> rfl
        | _ => rfl
  | worker i o =>
    obtain ⟨p, hp, rfl⟩ := Option.map_eq_some_iff.1 hs
    cases hpc : (s.pool.workers i).pc with
    | complete task =>
      simp only [Pool.workerStep, hpc, Option.some.injEq] at hp
      subst hp
      refine ⟨[task], [], by simp [observe, hpc], ?_, by simp [observe, hpc], by simp⟩
      cases hcb : task.taskArg.completeCb <;> simp [ThreadPoolTask.completion, hcb]
    | batch task cb =>
      simp only [Pool.workerStep, hpc, Option.some.injEq] at hp
      subst hp
      refine ⟨[], (cb.map fun cb => (w.due i, true, cb)).toList, by simp [observe, hpc], by simp, by simp [observe, hpc], ?_⟩
      cases cb <;> simp
    | _ =>
      have hcases := Pool.workerStep_cases hp
      refine hnone (by simp only [observe, hpc]) ?_ (by simp only [observe, hpc]) ?_ <;>
      · cases hcases <;> first | rfl | simp_all

end PoolSys

/-- The pool in memory, and what has been called back and handed back so far. -/
structure World (τ α κ : Type) where
  sys : PoolSys τ α κ
  watch : Watch τ α κ
  /-- the calls made -/
  calls : τ → Option (Call α κ)
  /-- what they have handed back to their callers -/
  answers : τ → Option Ret

inductive Move (τ α κ : Type)
  /-- a step of the pool, and what it meets behind a dangling pointer -/
  | act (a : Act τ α κ) (v : Tenant τ)
  /-- the call `t` hands back its result; a task id read in freed memory is `id` -/
  | answer (t : τ) (id : UInt64)
deriving DecidableEq

namespace World
variable {τ α κ : Type} [DecidableEq τ]

/-- A task of the call `t` is queued or with a worker. -/
def holds (x : World τ α κ) (t : τ) : Bool :=
  (List.finRange 64).any fun i =>
    ((x.sys.pool.workers i).queue ++ (x.sys.pool.workers i).pc.holding.toList).any fun task => task.owner == t

/-- `thread_pool_submit_task` is about to read the id in a task that has been freed. -/
def late (x : World τ α κ) (t : τ) : Bool :=
  match x.calls t, x.sys.threads t with
  | some (.submitTask ..), .done (.ids _) => !x.holds t
  | _, _ => false

/-- The calls made, after one more action. -/
def record (x : World τ α κ) : Act τ α κ → τ → Option (Call α κ)
  | .call t c _ => Function.update x.calls t (some c)
  | _ => x.calls

def step (x : World τ α κ) : Move τ α κ → Option (World τ α κ)
  | .act a v => (x.sys.memStep (a, v)).map fun s' =>
    { x with sys := s', watch := x.sys.memObserve x.watch (a, v), calls := x.record a }
  | .answer t id =>
    match x.sys.threads t, x.answers t with
    | .done ret, none =>
      some { x with answers := Function.update x.answers t (some (if x.late t then .ids [id] else ret)) }
    | _, _ => none

/-- Steps of the pool that meet no object of it behind a dangling pointer. -/
def quietMoves {τ α κ : Type} (as : List (Act τ α κ)) : List (Move τ α κ) := as.map fun a => .act a .other

def start : World τ α κ where
  sys := PoolSys.start
  watch := {}
  calls _ := none
  answers _ := none

/-- The step does not write to a context that has been freed. -/
def NoStray (x : World τ α κ) : Move τ α κ → Prop
  | .act a v => x.sys.NoStray (a, v)
  | .answer .. => True

instance decidableNoStray (x : World τ α κ) : (m : Move τ α κ) → Decidable (x.NoStray m)
  | .act a v => PoolSys.decidableNoStray x.sys (a, v)
  | .answer .. => isTrue trivial

/-- The steps of the pool meet `C`. -/
def Acts (C : PoolSys τ α κ → Act τ α κ → Prop) (x : World τ α κ) : Move τ α κ → Prop
  | .act a _ => C x.sys a
  | .answer .. => True

instance decidableActs (C : PoolSys τ α κ → Act τ α κ → Prop) [∀ s a, Decidable (C s a)] (x : World τ α κ) :
    (m : Move τ α κ) → Decidable (x.Acts C m)
  | .act a _ => inferInstanceAs (Decidable (C x.sys a))
  | .answer .. => isTrue trivial

/-- The call `t` does not read the id in a task that has been freed. -/
def InTime (t : τ) (x : World τ α κ) : Move τ α κ → Prop
  | .act .. => True
  | .answer u _ => u = t → x.late t = false

instance decidableInTime (t : τ) (x : World τ α κ) : (m : Move τ α κ) → Decidable (InTime t x m)
  | .act .. => isTrue trivial
  | .answer .. => inferInstanceAs (Decidable (_ → _ = _))

variable {x x' : World τ α κ} {m : Move τ α κ} {ms : List (Move τ α κ)} {t : τ}

/-- What a step does that writes to no freed context: a step of the pool, which is recorded, or nothing but to hand back
the result of a call. -/
inductive Step (x : World τ α κ) : Move τ α κ → World τ α κ → Prop
  | act (a : Act τ α κ) (v : Tenant τ) (s' : PoolSys τ α κ) (hs : x.sys.step a = some s') :
      Step x (.act a v) { x with sys := s', watch := x.sys.observe x.watch a, calls := x.record a }
  | answer (t : τ) (id : UInt64) (ret : Ret) (ht : x.sys.threads t = .done ret) (hn : x.answers t = none) :
      Step x (.answer t id)
        { x with answers := Function.update x.answers t (some (if x.late t then .ids [id] else ret)) }

theorem step_cases (hn : x.NoStray m) (hs : x.step m = some x') : Step x m x' := by
  cases m with
  | act a v =>
    obtain ⟨s', hmem, rfl⟩ := Option.map_eq_some_iff.1 hs
    rw [PoolSys.memStep_of_noStray hn] at hmem
    rw [PoolSys.memObserve_of_noStray hn]
    exact .act a v s' hmem
  | answer t id =>
    simp only [step] at hs
    split at hs
    · rename_i ret ht ha
      cases hs
      exact .answer t id ret ht ha
    · cases hs

/-- An invariant of the pool and the record: what every step of the pool keeps, a run keeps. -/
theorem exec_watch {C : World τ α κ → Move τ α κ → Prop} {I : PoolSys τ α κ → Watch τ α κ → Prop}
    (hI : ∀ (x : World τ α κ) a v s', I x.sys x.watch → C x (.act a v) → x.sys.step a = some s' →
      I s' (x.sys.observe x.watch a))
    (h₀ : I x.sys x.watch) (hC : Along World.step (fun x m => x.NoStray m ∧ C x m) x ms)
    (h : exec World.step x ms = some x') : I x'.sys x'.watch := by
  refine exec_inv (I := fun x : World τ α κ => I x.sys x.watch) (fun x m x' hx hm hs => ?_) h₀ hC h
  cases step_cases hm.1 hs with
  | act a v s' hpool => exact hI x a v s' hx hm.2 hpool
  | answer t id ret ht ha => exact hx

/-- The calls of the record are the ones that the history lists. -/
theorem listed (h : exec World.step start ms = some x) (hn : Along World.step NoStray start ms) :
    x.sys.pool.hist.completeCbs = x.watch.finished.filterMap ThreadPoolTask.completion ∧
      x.sys.pool.hist.batchCbs.map Prod.snd = x.watch.batches.map Prod.snd := by
  refine exec_watch (C := fun _ _ => True) (I := fun s w =>
    s.pool.hist.completeCbs = w.finished.filterMap ThreadPoolTask.completion ∧
      s.pool.hist.batchCbs.map Prod.snd = w.batches.map Prod.snd)
    (fun x a v s' hx _ hs => ?_) ⟨rfl, rfl⟩ (hn.mono fun _ _ hm => ⟨hm, trivial⟩) h
  obtain ⟨f, b, hf, hc, hb, hc'⟩ := PoolSys.observe_hist x.watch hs
  rw [hf, hc, hb, hc', hx.1, hx.2]
  simp

theorem answered_step (h : ∀ ret, x.answers t = some ret → x.sys.threads t = .done ret) (hn : x.NoStray m)
    (hi : InTime t x m) (hs : x.step m = some x') : ∀ ret, x'.answers t = some ret → x'.sys.threads t = .done ret := by
  cases step_cases hn hs with
  | act a v s' hpool => exact fun ret hret => PoolSys.done_step (h ret hret) hpool
  | answer u id ret hu ha =>
    intro ret' hret
    change Function.update x.answers u _ t = some ret' at hret
    rcases eq_or_ne t u with rfl | htu
    · rw [Function.update_self, show x.late t = false from hi rfl] at hret
      cases hret
      exact hu
    · rw [Function.update_of_ne htu] at hret
      exact h ret' hret

end World
end OsTransport
