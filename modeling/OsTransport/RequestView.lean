import OsTransport.Lib.Counter
import OsTransport.Fifo

/-!
# The pool as one request sees it

`View` is what matters of a pool system to the request `r`: its contexts, its queued tasks, what each
worker still has to do for a task of `r` it took (`Duty`), and where each call stands with `r` (`Role`).
`View.Step` is what the steps of the system do to it; each step has a `Mark` for the few that an
account of the request has to be careful about. `PoolSys.view_step` refines the system into it.
-/

namespace OsTransport

/-- What a worker has to do for a task of the request. -/
inductive Duty (τ : Type)
  | none
  /-- it runs the task, or is before `find_req_context` -/
  | counted
  | dec (ctx : τ)
  /-- `pending_count` was 0: it is about to remove the context -/
  | retiring
deriving DecidableEq

/-- Where a call stands with the request. -/
inductive Role (τ α κ : Type)
  | none
  /-- the tasks are queued on worker `i`, the context was not looked for -/
  | attached (i : Fin 64) (nodes : List (ThreadPoolTask τ α κ))
  /-- no context was found, one is about to be inserted -/
  | missed (i : Fin 64) (nodes : List (ThreadPoolTask τ α κ))
  | bump (ctx : τ)
  | cancelFind
  | cancelRead (ctx : τ)
  | cancelQueue (ctx : τ) (i : Fin 64)
  | cancelUpdate (ctx : τ) (n : UInt32)

/-- The steps an account of the request has to be careful about. -/
inductive Mark
  | plain
  /-- a task of the request is taken -/
  | take
  /-- tasks of the request are attached -/
  | attach
  /-- a submission of the request finds a context -/
  | hit
  /-- a submission of the request gets no memory for its context -/
  | noContext
  /-- a cancel of the request is entered -/
  | cancel
deriving DecidableEq

structure View (τ α κ : Type) where
  ctxs : List (RequestContext τ κ)
  queued : Fin 64 → List (ThreadPoolTask τ α κ)
  duty : Fin 64 → Duty τ
  role : τ → Role τ α κ

namespace View
variable {τ α κ : Type} [DecidableEq τ]
open Function (update)

/-- What a step of the system does to the request. -/
inductive Step (v : View τ α κ) : Mark → View τ α κ → Prop
  | refl : Step v .plain v
  | take (i : Fin 64) (x : ThreadPoolTask τ α κ) (rest : List (ThreadPoolTask τ α κ))
      (hd : v.duty i = .none) (hq : v.queued i = x :: rest) :
      Step v .take { v with queued := update v.queued i rest, duty := update v.duty i .counted }
  | found (i : Fin 64) (c : RequestContext τ κ) (hd : v.duty i = .counted) (hc : v.ctxs.head? = some c) :
      Step v .plain { v with duty := update v.duty i (.dec c.owner) }
  | missing (i : Fin 64) (hd : v.duty i = .counted) (hc : v.ctxs = []) :
      Step v .plain { v with duty := update v.duty i .none }
  | dec (i : Fin 64) (x : τ) (c : RequestContext τ κ) (hd : v.duty i = .dec x)
      (hc : (v.ctxs.map (Pool.bumped x (-1))).find? (fun c => c.owner == x) = some c) :
      Step v .plain { v with
        ctxs := v.ctxs.map (Pool.bumped x (-1))
        duty := update v.duty i (if c.pendingCount = 0 then .retiring else .none) }
  | decDangling (i : Fin 64) (x : τ) (d : Duty τ) (hd : v.duty i = .dec x)
      (hc : (v.ctxs.map (Pool.bumped x (-1))).find? (fun c => c.owner == x) = none) :
      Step v .plain { v with ctxs := v.ctxs.map (Pool.bumped x (-1)), duty := update v.duty i d }
  | retire (i : Fin 64) (hd : v.duty i = .retiring) :
      Step v .plain { v with ctxs := v.ctxs.tail, duty := update v.duty i .none }
  | attach (t : τ) (i : Fin 64) (nodes : List (ThreadPoolTask τ α κ)) (hr : v.role t = .none)
      (hd : v.duty i = .none) (hlen : 0 < nodes.length ∧ nodes.length < 2 ^ 32) :
      Step v .attach { v with
        queued := update v.queued i (v.queued i ++ nodes), role := update v.role t (.attached i nodes) }
  | hit (t : τ) (i : Fin 64) (nodes : List (ThreadPoolTask τ α κ)) (c : RequestContext τ κ)
      (hr : v.role t = .attached i nodes) (hc : v.ctxs.head? = some c) :
      Step v .hit { v with role := update v.role t (.bump c.owner) }
  | miss (t : τ) (i : Fin 64) (nodes : List (ThreadPoolTask τ α κ))
      (hr : v.role t = .attached i nodes) (hc : v.ctxs = []) :
      Step v .plain { v with role := update v.role t (.missed i nodes) }
  | bump (t x : τ) (d : Int32) (hr : v.role t = .bump x) :
      Step v .plain { v with ctxs := v.ctxs.map (Pool.bumped x d), role := update v.role t .none }
  | insert (t : τ) (i : Fin 64) (nodes : List (ThreadPoolTask τ α κ)) (c : RequestContext τ κ)
      (hr : v.role t = .missed i nodes)
      (hc : c.owner = t ∧ c.workerIdx = i ∧ c.pendingCount = Int32.ofNat nodes.length) :
      Step v .plain { v with ctxs := c :: v.ctxs, role := update v.role t .none }
  | noContext (t : τ) (i : Fin 64) (nodes : List (ThreadPoolTask τ α κ))
      (hr : v.role t = .missed i nodes) :
      Step v .noContext { v with role := update v.role t .none }
  | cancel (t : τ) (hr : v.role t = .none) :
      Step v .cancel { v with role := update v.role t .cancelFind }
  | cancelHit (t : τ) (c : RequestContext τ κ) (hr : v.role t = .cancelFind) (hc : v.ctxs.head? = some c) :
      Step v .plain { v with role := update v.role t (.cancelRead c.owner) }
  | cancelMiss (t : τ) (hr : v.role t = .cancelFind) (hc : v.ctxs = []) :
      Step v .plain { v with role := update v.role t .none }
  | cancelRead (t x : τ) (i : Fin 64) (hr : v.role t = .cancelRead x)
      (hi : ∀ c, v.ctxs.find? (fun c => c.owner == x) = some c → i = c.workerIdx) :
      Step v .plain { v with role := update v.role t (.cancelQueue x i) }
  | cancelQueue (t x : τ) (i : Fin 64) (hr : v.role t = .cancelQueue x i) (hd : v.duty i = .none) :
      Step v .plain { v with
        queued := update v.queued i []
        role := update v.role t (if 0 < UInt32.ofNat (v.queued i).length then
          .cancelUpdate x (UInt32.ofNat (v.queued i).length) else .none) }
  | cancelUpdate (t x : τ) (n : UInt32) (c : RequestContext τ κ) (hr : v.role t = .cancelUpdate x n)
      (hc : (v.ctxs.map (Pool.bumped x (-n.toInt32))).find? (fun c => c.owner == x) = some c) :
      Step v .plain { v with
        ctxs := if c.pendingCount = 0 then (v.ctxs.map (Pool.bumped x (-n.toInt32))).tail
          else v.ctxs.map (Pool.bumped x (-n.toInt32))
        role := update v.role t .none }
  | cancelUpdateDangling (t x : τ) (n : UInt32) (z : Bool) (hr : v.role t = .cancelUpdate x n)
      (hc : (v.ctxs.map (Pool.bumped x (-n.toInt32))).find? (fun c => c.owner == x) = none) :
      Step v .plain { v with
        ctxs := if z then (v.ctxs.map (Pool.bumped x (-n.toInt32))).tail
          else v.ctxs.map (Pool.bumped x (-n.toInt32))
        role := update v.role t .none }

end View

namespace WorkerPc
variable {τ α κ : Type}

/-- What the worker has to do for a task of request `r`. -/
def duty (r : UInt32) : WorkerPc τ α κ → Duty τ
  | .func task | .complete task | .find task => if task.requestId = r then .counted else .none
  | .dec task ctx => if task.requestId = r then .dec ctx else .none
  | .batch task _ | .remove task => if task.requestId = r then .retiring else .none
  | .wait | .finish _ | .exited => .none

end WorkerPc

namespace Pc
variable {τ α κ : Type}

/-- Where the call stands with request `r`. -/
def role (r : UInt32) : Pc τ α κ → Role τ α κ
  | .findCtx b i nodes => if b.requestId = r then .attached i nodes else .none
  | .insert b i nodes => if b.requestId = r then .missed i nodes else .none
  | .bump b _ ctx => if b.requestId = r then .bump ctx else .none
  | .cancelFind r' => if r' = r then .cancelFind else .none
  | .cancelRead r' ctx => if r' = r then .cancelRead ctx else .none
  | .cancelQueue r' ctx i => if r' = r then .cancelQueue ctx i else .none
  | .cancelUpdate r' ctx n => if r' = r then .cancelUpdate ctx n else .none
  | _ => .none

end Pc

namespace Pool
variable {τ α κ : Type}

/-- A pool as request `r` sees it, given where the calls stand. -/
def view (p : Pool τ α κ) (threads : τ → Pc τ α κ) (r : UInt32) : View τ α κ where
  ctxs := p.ctxs r
  queued i := p.queued i r
  duty i := (p.workers i).pc.duty r
  role t := (threads t).role r

variable {threads : τ → Pc τ α κ}

/-- The view of a pool in which worker `i` has become `w`. -/
theorem view_eq {p p' : Pool τ α κ} {i : Fin 64} {w : WorkerThread τ α κ}
    (hw : p'.workers = Function.update p.workers i w) (r : UInt32) :
    p'.view threads r = { p.view threads r with
      ctxs := p'.ctxs r
      queued := Function.update (p.view threads r).queued i
        (w.queue.filter fun task => task.requestId == r)
      duty := Function.update (p.view threads r).duty i (w.pc.duty r) } := by
  have h {β : Type} (f : WorkerThread τ α κ → β) : (fun j => f (p'.workers j)) =
      Function.update (fun j => f (p.workers j)) i (f w) := by
    funext j
    simp only [hw, Function.update_apply]
    split <;> rfl
  simp only [view, queued]
  congr 1
  · exact h fun w => w.queue.filter fun task => task.requestId == r
  · exact h fun w => w.pc.duty r

theorem view_setPc {p p' : Pool τ α κ} {i : Fin 64} {w : WorkerThread τ α κ}
    (hw : p'.workers = Function.update p.workers i w) (r : UInt32)
    (hq : w.queue.filter (fun task => task.requestId == r) = p.queued i r) :
    p'.view threads r = { p.view threads r with
      ctxs := p'.ctxs r, duty := Function.update (p.view threads r).duty i (w.pc.duty r) } := by
  rw [view_eq hw r, hq]
  simp only [view, Function.update_eq_self]

theorem view_queue {p p' : Pool τ α κ} {i : Fin 64} {w : WorkerThread τ α κ}
    (hw : p'.workers = Function.update p.workers i w) {r : UInt32}
    (hd : w.pc.duty r = (p.workers i).pc.duty r) (hc : p'.ctxs r = p.ctxs r) :
    p'.view threads r = { p.view threads r with
      queued := Function.update (p.view threads r).queued i
        (w.queue.filter fun task => task.requestId == r) } := by
  rw [view_eq hw r, hd, hc]
  simp only [view, Function.update_eq_self]

theorem view_same {p p' : Pool τ α κ} {i : Fin 64} {w : WorkerThread τ α κ}
    (hw : p'.workers = Function.update p.workers i w) {r : UInt32}
    (hq : w.queue.filter (fun task => task.requestId == r) = p.queued i r)
    (hd : w.pc.duty r = (p.workers i).pc.duty r) (hc : p'.ctxs r = p.ctxs r) :
    p'.view threads r = p.view threads r := by
  rw [view_setPc hw r hq, hd, hc]
  simp only [view, Function.update_eq_self]

/-- Worker `i` will take a task of `r` next. -/
def Takes (p : Pool τ α κ) (r : UInt32) (i : Fin 64) : Prop :=
  (p.workers i).pc = .wait ∧ (p.workers i).pendingReq = r ∧ r ≠ 0 ∧ p.queued i r ≠ []

variable [DecidableEq τ]

omit [DecidableEq τ] in
theorem view_ctxs {p p' : Pool τ α κ} (hw : p'.workers = p.workers) (r : UInt32) :
    p'.view threads r = { p.view threads r with ctxs := p'.ctxs r } := by
  simp only [view, queued, hw]

theorem ctxs_afterCancel (p : Pool τ α κ) (r r' : UInt32) (t : τ) (d : Int32) (b : Prop)
    [Decidable b] : (if b then (p.addPending r' t d).removeReqContext r' else p.addPending r' t d).ctxs r =
      if r = r' then if b then ((p.ctxs r).map (bumped t d)).tail else (p.ctxs r).map (bumped t d)
      else p.ctxs r := by
  split <;> by_cases h : r = r' <;> simp [removeReqContext_ctxs, addPending_ctxs, h]

theorem view_step_of {p p' : Pool τ α κ} {i : Fin 64} {w : WorkerThread τ α κ} {r : UInt32} {m : Mark}
    (hw : p'.workers = Function.update p.workers i w)
    (h : View.Step (p.view threads r) m { p.view threads r with
      ctxs := p'.ctxs r
      queued := Function.update (p.view threads r).queued i
        (w.queue.filter fun task => task.requestId == r)
      duty := Function.update (p.view threads r).duty i (w.pc.duty r) }) :
    View.Step (p.view threads r) m (p'.view threads r) :=
  view_eq hw r ▸ h

omit [DecidableEq τ] in
theorem duty_of_ne {task : ThreadPoolTask τ α κ} {r : UInt32} (ht : task.requestId ≠ r) {b : Prop}
    [Decidable b] (cb : Option κ) :
    (if b then WorkerPc.batch task cb else .finish task : WorkerPc τ α κ).duty r = .none ∧
      (if b then WorkerPc.remove task else .finish task : WorkerPc τ α κ).duty r = .none := by
  constructor <;> split <;> simp [WorkerPc.duty, ht]

theorem view_workerStep {p p' : Pool τ α κ} {i : Fin 64} {o : Oracle} (h : WorkerStep p i o p')
    (threads : τ → Pc τ α κ) (r : UInt32) :
    ∃ m, View.Step (p.view threads r) m (p'.view threads r) ∧ (m = .plain ∨ m = .take ∧ p.Takes r i) := by
  -- what worker `i` does for a task of another request is invisible
  have hsame : ∀ {w : WorkerThread τ α κ}, p'.workers = Function.update p.workers i w →
      w.queue.filter (fun task => task.requestId == r) = p.queued i r → w.pc.duty r = (p.workers i).pc.duty r → p'.ctxs r = p.ctxs r →
      ∃ m, View.Step (p.view threads r) m (p'.view threads r) ∧ (m = .plain ∨ m = .take ∧ p.Takes r i) :=
    fun hw hq hd hc => ⟨.plain, view_same hw hq hd hc ▸ .refl, .inl rfl⟩
  have hduty : ∀ {w : WorkerThread τ α κ}, p'.workers = Function.update p.workers i w →
      w.queue.filter (fun task => task.requestId == r) = p.queued i r → View.Step (p.view threads r) .plain { p.view threads r with
        ctxs := p'.ctxs r, duty := Function.update (p.view threads r).duty i (w.pc.duty r) } →
      ∃ m, View.Step (p.view threads r) m (p'.view threads r) ∧ (m = .plain ∨ m = .take ∧ p.Takes r i) :=
    fun hw hq hs => ⟨.plain, view_setPc hw r hq ▸ hs, .inl rfl⟩
  cases h with
  | park st pc hpc hq hpark =>
    refine hsame rfl rfl ?_ rfl
    rcases hpark with ⟨rfl, -⟩ | ⟨rfl, -⟩ <;> simp [hpc, WorkerPc.duty]
  | take task rest hpc hr hpop =>
    by_cases ht : task.requestId = r
    · have hpr : (p.workers i).pendingReq = r := by
        have := popFirst_sat hpop
        rw [← ht]; exact (beq_iff_eq.1 this).symm
      have hqueue : p.queued i r = task :: rest.filter (fun task => task.requestId == r) := by
        rw [hpr] at hpop
        exact filter_popFirst_self hpop
      refine ⟨.take, ?_, .inr ⟨rfl, hpc, hpr, hpr ▸ hr, by rw [hqueue]; simp⟩⟩
      have hstep := View.Step.take (v := p.view threads r) i task _
        (by simp [view, hpc, WorkerPc.duty]) hqueue
      refine view_step_of (i := i) rfl ?_
      simp only [WorkerPc.duty, ht, if_true]
      exact hstep
    · have hrest : rest.filter (fun task => task.requestId == r) = p.queued i r :=
        filter_popFirst_of_not hpop (by simpa using ht)
      exact hsame rfl hrest (by simp [hpc, WorkerPc.duty, ht]) rfl
  | func task hpc => exact hsame rfl rfl (by simp [hpc, WorkerPc.duty]) rfl
  | complete task cbs hpc => exact hsame rfl rfl (by simp [hpc, WorkerPc.duty]) rfl
  | findSome task ctx hpc hf =>
    by_cases ht : task.requestId = r
    · rw [findReqContext_eq, ht] at hf
      refine hduty rfl rfl ?_
      simp only [WorkerPc.duty, ht, if_true]
      exact .found i ctx (by simp [view, hpc, WorkerPc.duty, ht]) hf
    · exact hsame rfl rfl (by simp [hpc, WorkerPc.duty, ht]) rfl
  | findNone task hpc hf =>
    by_cases ht : task.requestId = r
    · rw [findReqContext_eq, ht, List.head?_eq_none_iff] at hf
      refine hduty rfl rfl ?_
      exact .missing i (by simp [view, hpc, WorkerPc.duty, ht]) hf
    · exact hsame rfl rfl (by simp [hpc, WorkerPc.duty, ht]) rfl
  | dec task ctx c hpc hd =>
    by_cases ht : task.requestId = r
    · have hc : ((p.addPending task.requestId ctx (-1)).setPc i
          (if c.pendingCount = 0 then .batch task c.batchCb else .finish task)).ctxs r =
          (p.ctxs r).map (bumped ctx (-1)) := (addPending_ctxs ..).trans (if_pos ht.symm)
      rw [deref_eq, ht, addPending_ctxs, if_pos rfl] at hd
      refine hduty rfl rfl ?_
      rw [hc]
      have hd' : (if c.pendingCount = 0 then .batch task c.batchCb else .finish task :
          WorkerPc τ α κ).duty r = if c.pendingCount = 0 then .retiring else .none := by
        split <;> simp [WorkerPc.duty, ht]
      simp only [hd']
      exact .dec i ctx c (by simp [view, hpc, WorkerPc.duty, ht]) hd
    · refine hsame rfl rfl ?_ ?_
      · rw [(duty_of_ne ht _).1]
        simp [hpc, WorkerPc.duty, ht]
      · exact (addPending_ctxs ..).trans (if_neg (Ne.symm ht))
  | decDangling task ctx hpc hd =>
    by_cases ht : task.requestId = r
    · have hc : ((p.addPending task.requestId ctx (-1)).setPc i
          (if o.zero then .remove task else .finish task)).ctxs r =
          (p.ctxs r).map (bumped ctx (-1)) := (addPending_ctxs ..).trans (if_pos ht.symm)
      rw [deref_eq, ht, addPending_ctxs, if_pos rfl] at hd
      refine hduty rfl rfl ?_
      rw [hc]
      exact .decDangling i ctx _ (by simp [view, hpc, WorkerPc.duty, ht]) hd
    · refine hsame rfl rfl ?_ ?_
      · rw [(duty_of_ne ht none).2]
        simp [hpc, WorkerPc.duty, ht]
      · exact (addPending_ctxs ..).trans (if_neg (Ne.symm ht))
  | batch task cb cbs hpc => exact hsame rfl rfl (by simp [hpc, WorkerPc.duty]) rfl
  | remove task hpc =>
    by_cases ht : task.requestId = r
    · have hc : ((p.removeReqContext task.requestId).setPc i (.finish task)).ctxs r = (p.ctxs r).tail :=
        (removeReqContext_ctxs ..).trans (if_pos ht.symm)
      refine hduty rfl rfl ?_
      rw [hc]
      exact .retire i (by simp [view, hpc, WorkerPc.duty, ht])
    · refine hsame rfl rfl (by simp [hpc, WorkerPc.duty, ht]) ?_
      exact (removeReqContext_ctxs ..).trans (if_neg (Ne.symm ht))
  | finish task st pc hpc hpark =>
    refine hsame rfl rfl ?_ rfl
    rcases hpark with ⟨rfl, -⟩ | ⟨rfl, -⟩ <;> simp [hpc, WorkerPc.duty]

end Pool

namespace PoolSys
variable {τ α κ : Type} [DecidableEq τ]

/-- The system as request `r` sees it. -/
def view (s : PoolSys τ α κ) (r : UInt32) : View τ α κ := s.pool.view s.threads r

/-- How the action `a` is marked in the view of `r`. -/
def Marks (r : UInt32) (s : PoolSys τ α κ) (a : Act τ α κ) : Mark → Prop
  | .plain => True
  | .take => ∃ i o, a = .worker i o ∧ s.pool.Takes r i
  | .attach => ∃ t o b i nodes, a = .thread t o ∧ s.threads t = .attach b i nodes ∧ b.requestId = r
  | .hit => ∃ t o b i nodes, a = .thread t o ∧ s.threads t = .findCtx b i nodes ∧ b.requestId = r ∧
      s.pool.ctxs r ≠ []
  | .noContext => ∃ t o b i nodes, a = .thread t o ∧ s.threads t = .insert b i nodes ∧
      b.requestId = r ∧ o.ok = false
  | .cancel => ∃ t o, a = .call t (.cancel r) o

theorem setThread_view (s : PoolSys τ α κ) (t : τ) (pc : Pc τ α κ) (r : UInt32) :
    (s.setThread t pc).view r =
      { s.view r with role := Function.update (s.view r).role t (pc.role r) } := by
  simp only [view, Pool.view, setThread]
  congr 1
  funext u
  simp only [Function.update_apply]
  split <;> rfl

theorem setThread_view_same (s : PoolSys τ α κ) (t : τ) {pc : Pc τ α κ} {r : UInt32}
    (h : pc.role r = (s.threads t).role r) : (s.setThread t pc).view r = s.view r := by
  rw [setThread_view, h]
  simp only [view, Pool.view, Function.update_eq_self]

omit [DecidableEq τ] in
theorem duty_of_mutexFree {w : WorkerThread τ α κ} (h : w.mutexFree = true) (r : UInt32) :
    w.pc.duty r = .none := by
  unfold WorkerThread.mutexFree at h
  split at h
  · rename_i hpc; rw [hpc]; rfl
  · rename_i hpc; rw [hpc]; rfl
  · cases h

theorem view_threadStep {s : PoolSys τ α κ} {t : τ} {o : Oracle} {p : Pool τ α κ} {pc : Pc τ α κ}
    (h : Pool.ThreadStep s.pool t o (s.threads t) p pc) (hl : (s.threads t).Local t) (r : UInt32) :
    ∃ m, View.Step (s.view r) m (({ s with pool := p }.setThread t pc).view r) ∧
      s.Marks r (.thread t o) m := by
  generalize hpc : s.threads t = pc₀ at h hl
  have hsame : pc.role r = pc₀.role r → p.view s.threads r = s.pool.view s.threads r →
      ∃ m, View.Step (s.view r) m (({ s with pool := p }.setThread t pc).view r) ∧
        s.Marks r (.thread t o) m := fun hr hp =>
    ⟨.plain, by
      rw [setThread_view_same _ _ (hr.trans (by rw [← hpc]))]
      rw [show ({ s with pool := p } : PoolSys τ α κ).view r = s.view r from hp]
      exact .refl, trivial⟩
  have hto : ∀ m, View.Step (s.view r) m { p.view s.threads r with
      role := Function.update (s.view r).role t (pc.role r) } → s.Marks r (.thread t o) m →
      ∃ m, View.Step (s.view r) m (({ s with pool := p }.setThread t pc).view r) ∧
        s.Marks r (.thread t o) m := fun m hs hm =>
    ⟨m, (setThread_view { s with pool := p } t pc r).symm ▸ hs, hm⟩
  have hqueue : ∀ {i : Fin 64} {w : WorkerThread τ α κ} (m : Mark),
      p.workers = Function.update s.pool.workers i w → w.pc.duty r = (s.pool.workers i).pc.duty r →
      p.ctxs r = s.pool.ctxs r → View.Step (s.view r) m { s.view r with
        queued := Function.update (s.view r).queued i (w.queue.filter fun task => task.requestId == r)
        role := Function.update (s.view r).role t (pc.role r) } → s.Marks r (.thread t o) m →
      ∃ m, View.Step (s.view r) m (({ s with pool := p }.setThread t pc).view r) ∧
        s.Marks r (.thread t o) m := fun m hw hd hc hs hm =>
    hto m (Pool.view_queue hw hd hc ▸ hs) hm
  have hrole : ∀ {x}, pc₀.role r = x → (s.view r).role t = x := fun h => by
    rw [← h, ← hpc]; rfl
  cases h with
  | select b nodes i best minLoad hm =>
    refine hsame ?_ rfl
    rcases s.pool.selectStep_cases b nodes i best minLoad with ⟨j, best', minLoad', h⟩ | ⟨w, h⟩ | h <;>
      rw [h]
    · rfl
    · unfold Pool.afterSelect
      split <;> rfl
    · rfl
  | create b worker nodes arg ha =>
    refine hsame ?_ rfl
    unfold Pool.afterCreate
    split
    · rfl
    · split <;> rfl
  | createFail b worker nodes id ho => exact hsame rfl rfl
  | attach b i nodes size hm hs =>
    have hd := duty_of_mutexFree hm r
    by_cases hb : b.requestId = r
    · have hnodes : nodes.filter (fun task => task.requestId == r) = nodes :=
        List.filter_eq_self.2 fun task hm => by simpa [← hb] using (hl.1.of_mem hm).2
      have hlen : 0 < nodes.length ∧ nodes.length < 2 ^ 32 := by
        rw [hl.2]
        exact ⟨List.length_pos_iff.2 b.args_ne, b.count_lt⟩
      refine hqueue (i := i) .attach rfl ?_ rfl ?_ ⟨t, o, b, i, nodes, rfl, hpc, hb⟩
      · rfl
      · simp only [List.filter_append, hnodes, Pc.role, hb, if_true]
        exact .attach t i nodes (hrole rfl) hd hlen
    · have hnodes : nodes.filter (fun task => task.requestId == r) = [] :=
        List.filter_eq_nil_iff.2 fun task hm => by simpa [(hl.1.of_mem hm).2] using hb
      refine hsame (by simp [Pc.role, hb]) (Pool.view_same (i := i) rfl ?_ ?_ rfl)
      · simp [List.filter_append, hnodes, Pool.queued]
      · rfl
  | attachFail b i nodes ho => exact hsame rfl rfl
  | findSome b i nodes ctx hf =>
    by_cases hb : b.requestId = r
    · rw [Pool.findReqContext_eq, hb] at hf
      refine hto .hit ?_ ⟨t, o, b, i, nodes, rfl, hpc, hb, by rintro h; simp [h] at hf⟩
      simp only [Pc.role, hb, if_true]
      exact .hit t i nodes ctx (hrole (by simp [Pc.role, hb])) hf
    · exact hsame (by simp [Pc.role, hb]) rfl
  | findNone b i nodes hf =>
    by_cases hb : b.requestId = r
    · rw [Pool.findReqContext_eq, hb, List.head?_eq_none_iff] at hf
      refine hto .plain ?_ trivial
      simp only [Pc.role, hb, if_true]
      exact .miss t i nodes (hrole (by simp [Pc.role, hb])) hf
    · exact hsame (by simp [Pc.role, hb]) rfl
  | bump b nodes ctx =>
    by_cases hb : b.requestId = r
    · refine hto .plain ?_ trivial
      rw [Pool.view_ctxs (Pool.addPending_workers ..), Pool.addPending_ctxs, if_pos hb.symm]
      exact .bump t ctx _ (hrole (by simp [Pc.role, hb]))
    · refine hsame (by simp [Pc.role, hb]) ?_
      rw [Pool.view_ctxs (Pool.addPending_workers ..), Pool.addPending_ctxs, if_neg (Ne.symm hb)]
      rfl
  | insert b i nodes ho =>
    by_cases hb : b.requestId = r
    · refine hto .plain ?_ trivial
      rw [Pool.view_ctxs (Pool.insertReqContext_workers ..), Pool.insertReqContext_ctxs]
      rw [show (Pool.newContext t b i : RequestContext τ κ).requestId = r from hb, if_pos rfl]
      refine .insert t i nodes _ (hrole (by simp [Pc.role, hb])) ⟨rfl, rfl, ?_⟩
      simp only [Pool.newContext, Submit.count, UInt32.toInt32_ofNat', hl.2]
    · refine hsame (by simp [Pc.role, hb]) ?_
      rw [Pool.view_ctxs (Pool.insertReqContext_workers ..), Pool.insertReqContext_ctxs]
      rw [if_neg (show (Pool.newContext t b i : RequestContext τ κ).requestId ≠ r from hb)]
      rfl
  | insertFail b i nodes ho =>
    by_cases hb : b.requestId = r
    · refine hto .noContext ?_ ⟨t, o, b, i, nodes, rfl, hpc, hb, ho⟩
      exact .noContext t i nodes (hrole (by simp [Pc.role, hb]))
    · exact hsame (by simp [Pc.role, hb]) rfl
  | wakeFindSome r' ctx hf => exact hsame rfl rfl
  | wakeFindNone r' hf => exact hsame rfl rfl
  | wakeRead r' ctx => exact hsame rfl rfl
  | wakeSet r' i hm =>
    refine hsame rfl (Pool.view_same (i := i) rfl ?_ ?_ rfl) <;> rfl
  | cancelFindSome r' ctx hf =>
    by_cases hb : r' = r
    · rw [Pool.findReqContext_eq, hb] at hf
      refine hto .plain ?_ trivial
      simp only [Pc.role, hb, if_true]
      exact .cancelHit t ctx (hrole (by simp [Pc.role, hb])) hf
    · exact hsame (by simp [Pc.role, hb]) rfl
  | cancelFindNone r' hf =>
    by_cases hb : r' = r
    · rw [Pool.findReqContext_eq, hb, List.head?_eq_none_iff] at hf
      refine hto .plain ?_ trivial
      exact .cancelMiss t (hrole (by simp [Pc.role, hb])) hf
    · exact hsame (by simp [Pc.role, hb]) rfl
  | cancelRead r' ctx =>
    by_cases hb : r' = r
    · refine hto .plain ?_ trivial
      simp only [Pc.role, hb, if_true]
      refine .cancelRead t ctx _ (hrole (by simp [Pc.role, hb])) fun c hc => ?_
      rw [Pool.deref_eq, show (s.pool.ctxs r).find? _ = some c from hc]
      rfl
    · exact hsame (by simp [Pc.role, hb]) rfl
  | cancelQueue r' ctx i hm =>
    have hd := duty_of_mutexFree hm r
    by_cases hb : r' = r
    · subst hb
      have hstep := View.Step.cancelQueue (v := s.view r') t ctx i (hrole (by simp [Pc.role])) hd
      have hnone : ((s.pool.workers i).queue.filter fun task => !(task.requestId == r')).filter
          (fun task => task.requestId == r') = [] := by simp [List.filter_filter]
      refine hqueue (i := i) .plain rfl ?_ rfl ?_ trivial
      · rfl
      · have hpc' : (if 0 < UInt32.ofNat (s.pool.queued i r').length then
            .cancelUpdate r' ctx (UInt32.ofNat (s.pool.queued i r').length) else .done (.int 0) :
            Pc τ α κ).role r' = if 0 < UInt32.ofNat (s.pool.queued i r').length then
            .cancelUpdate ctx (UInt32.ofNat (s.pool.queued i r').length) else .none := by
          split <;> simp [Pc.role]
        simp only [hnone, hpc']
        exact hstep
    · refine hsame ?_ (Pool.view_same (i := i) rfl ?_ ?_ rfl)
      · split <;> simp [Pc.role, hb]
      · simp only [Pool.queued, List.filter_filter]
        refine List.filter_congr fun task _ => ?_
        by_cases ht : task.requestId = r <;> simp [ht, Ne.symm hb]
      · rfl
  | cancelUpdate r' ctx n c hd =>
    have hw : (if c.pendingCount = 0 then (s.pool.addPending r' ctx (-n.toInt32)).removeReqContext r'
        else s.pool.addPending r' ctx (-n.toInt32)).workers = s.pool.workers := by split <;> rfl
    by_cases hb : r' = r
    · subst hb
      rw [Pool.deref_eq, Pool.addPending_ctxs, if_pos rfl] at hd
      refine hto .plain ?_ trivial
      have hstep := View.Step.cancelUpdate (v := s.view r') t ctx n c (hrole (by simp [Pc.role])) hd
      rw [Pool.view_ctxs hw, Pool.ctxs_afterCancel, if_pos rfl]
      exact hstep
    · refine hsame (by simp [Pc.role, hb]) ?_
      rw [Pool.view_ctxs hw, Pool.ctxs_afterCancel, if_neg (Ne.symm hb)]
      rfl
  | cancelUpdateDangling r' ctx n hd =>
    have hw : (if o.zero then (s.pool.addPending r' ctx (-n.toInt32)).removeReqContext r'
        else s.pool.addPending r' ctx (-n.toInt32)).workers = s.pool.workers := by split <;> rfl
    by_cases hb : r' = r
    · subst hb
      rw [Pool.deref_eq, Pool.addPending_ctxs, if_pos rfl] at hd
      refine hto .plain ?_ trivial
      have hstep := View.Step.cancelUpdateDangling (v := s.view r') t ctx n o.zero
        (hrole (by simp [Pc.role])) hd
      rw [Pool.view_ctxs hw, Pool.ctxs_afterCancel, if_pos rfl]
      exact hstep
    · refine hsame (by simp [Pc.role, hb]) ?_
      rw [Pool.view_ctxs hw, Pool.ctxs_afterCancel, if_neg (Ne.symm hb)]
      rfl

/-- Every step of the system is a step of every view. -/
theorem view_step {s s' : PoolSys τ α κ} {a : Act τ α κ} (h : s.step a = some s')
    (hl : ∀ t, (s.threads t).Local t) (r : UInt32) :
    ∃ m, View.Step (s.view r) m (s'.view r) ∧ s.Marks r a m := by
  cases step_cases h with
  | worker i o p hp =>
    obtain ⟨m, hs, rfl | ⟨rfl, ht⟩⟩ := Pool.view_workerStep hp s.threads r
    · exact ⟨.plain, hs, trivial⟩
    · exact ⟨.take, hs, i, o, rfl, ht⟩
  | thread t o p pc hp => exact view_threadStep hp (hl t) r
  | call t c o ht =>
    by_cases hc : (enter s.pool o c).role r = .none
    · refine ⟨.plain, ?_, trivial⟩
      rw [setThread_view_same _ _ (hc.trans (by rw [ht]; rfl))]
      exact .refl
    · -- only a cancel of `r` starts with a role
      obtain ⟨rfl, hr⟩ : c = .cancel r ∧ (enter s.pool o c).role r = .cancelFind := by
        cases c with
        | submitTask r' arg cb => exact absurd (by simp only [enter]; split <;> rfl) hc
        | submitBatch b =>
          refine absurd ?_ hc
          simp only [enter]
          split
          · rfl
          split
          · rfl
          split <;> rfl
        | wakeUp r' => exact absurd rfl hc
        | cancel r' =>
          simp only [enter] at hc ⊢
          by_cases hr : s.pool.isRunning = true
          · by_cases hr' : r' = r
            · subst hr'; simp [hr, Pc.role]
            · exact absurd (by simp [hr, Pc.role, hr']) hc
          · exact absurd (by simp [hr, Pc.role]) hc
      refine ⟨.cancel, ?_, t, o, rfl⟩
      rw [setThread_view, hr]
      exact .cancel t (show (s.threads t).role r = .none by rw [ht]; rfl)

end PoolSys
end OsTransport
