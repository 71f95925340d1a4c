import OsTransport.RecvWait
import OsTransport.Submission
import OsTransport.TransportReuse

/-!
# Failed calls of the transport

A call of `os_transport_send` or `os_transport_recv` that fails while no other thread moves but the workers it waits
for, and the `wait_and_free_sync` that cleans up after it. `Calling` follows the call from the pool it was made on,
`Waiting` the wait; what both together make of the queues and the table is in `Pool.cut_restored` and
`Pool.bound_of_cut`.
-/

namespace OsTransport

/-- Which pointer arguments of a call are not NULL; a receive has no `jetty_info`. -/
structure Pointers where
  handle : Bool
  jettyInfo : Bool
  /-- `local_src` or `host_src` -/
  src : Bool
  /-- `remote_dst` or `device_dst` -/
  dst : Bool
  retSyncHandle : Bool

/-- `validate_send_input` or `validate_recv_input`; `inited` is `g_inited`. -/
def Request.validateInput (a : Request) (x : Pointers) (inited : Bool) : Bool :=
  match a.type with
  | .send => x.handle && x.jettyInfo && x.src && x.dst && x.retSyncHandle && a.len != 0 && inited
  | .recv => x.handle && x.src && x.dst && x.retSyncHandle && a.len != 0 && inited

/-- The request is made of tasks for a worker. -/
def Request.Split (a : Request) : Prop := a.type = .send → defaultChunkSize < a.len.toNat

/-- A task of the request is queued, or a worker has it. -/
def Pool.Outstanding {τ α κ : Type} (p : Pool τ α κ) (r : UInt32) : Prop :=
  ∃ i, p.queued i r ≠ [] ∨ (p.workers i).pc.requestId? = some r

instance {τ α κ : Type} (p : Pool τ α κ) (r : UInt32) : Decidable (p.Outstanding r) :=
  decidable_of_iff (∃ i, (p.queued i r).isEmpty = false ∨ (p.workers i).pc.requestId? = some r)
    (exists_congr fun i => or_congr_left (by simp))

theorem Pool.queued_of_not_outstanding {τ α κ : Type} {p : Pool τ α κ} {r : UInt32} (h : ¬p.Outstanding r)
    (i : Fin 64) : p.queued i r = [] := by
  by_contra hne
  exact h ⟨i, .inl hne⟩

theorem Pc.accepted_of_locks {τ α κ : Type} {pc : Pc τ α κ} {i : Fin 64} (h : pc.locks = some i) :
    pc.accepted = false := by
  cases pc with
  | select | attach | wakeSet | cancelQueue => rfl
  | _ => cases h

open Lts
namespace Sys
variable {ρ ψ : Type} [DecidableEq ρ] [DecidableEq ψ]

/-- `os_transport_send` or `os_transport_recv` with all its arguments. -/
def enter (args : ρ → Request) (x : Pointers) (inited : Bool) (s : Sys ρ ψ) (q : ρ) (o : Oracle) :
    Option (Sys ρ ψ) :=
  if (args q).validateInput x inited then callStep (args q) s q o
  else some (s.setTransfer q { s.transfers q with caller := .returned false false })

/-- Of the workers that `select_best_worker` comes to, none uses memory that has been freed. -/
structure Clean (s : Sys ρ ψ) : Prop where
  live : s.pool.pool.HoldsLive
  sound : ∀ i, s.pool.pool.ComesTo i → s.misuse (.worker i {}) = none

/-- A section of the call of `q`, the allocations of the pool succeeding, or of the worker whose mutex it waits for. -/
def CallerAct (q : ρ) (s : Sys ρ ψ) (x : Action ρ ψ × Found ρ ψ) : Prop :=
  match x.1 with
  | .caller q' o => q' = q ∧ ((s.transfers q).caller = .registering → o.ok = true ∧ o.okNode = true)
  | .worker i _ => s.pool.pool.waitsFor (s.pool.threads (.caller q)) = some i
  | _ => False

/-- The call of `q` is made in `s` and fails in `s'`, with no other step taken but of the workers it waits for. -/
def FailedCall (args : ρ → Request) (x : Pointers) (inited : Bool) (q : ρ) (s s' : Sys ρ ψ) : Prop :=
  ∃ o s₁ xs, enter args x inited s q o = some s₁ ∧ Along (memStep args) (CallerAct q) s₁ xs ∧
    exec (memStep args) s₁ xs = some s' ∧ ∃ handle, (s'.transfers q).caller = .returned handle false

/-- `wait_and_free_sync`, and the first `n` of its sections. -/
def waitRun (q : ρ) (ms : Nat → Oracle × Found ρ ψ) (n : Nat) : List (Action ρ ψ × Found ρ ψ) :=
  (.wait q, {}) :: (List.range n).map fun k => (.waiter q (ms k).1, (ms k).2)

/-- The queues and the table are the ones of `s`, but for what workers that the call waited for have done. -/
def Unchanged (s s' : Sys ρ ψ) : Prop := ∃ n ≤ 64, (s.pool.pool.awaited n).Restored s'.pool.pool

/-- The call that failed in `s'` has left nothing: it gave no sync handle, or `wait_and_free_sync` is never
blocked, returns -1 and leaves nothing. -/
def Recovered (args : ρ → Request) (q : ρ) (s s' : Sys ρ ψ) : Prop :=
  (s'.transfers q).caller = .returned false false ∧ Unchanged s s' ∨
  (s'.transfers q).caller = .returned true false ∧ ∀ ms, ∃ n s'', exec (memStep args) s' (waitRun q ms n) = some s'' ∧
    (s''.transfers q).waiter = .returned false ∧ Unchanged s s''

variable {args : ρ → Request} {s s' : Sys ρ ψ} {q : ρ}

/-! ### A worker in its task -/

omit [DecidableEq ρ] in
theorem Stay.freed {a : Request} {arg : TaskArg ρ} {o : Oracle} {x x' : Transfer} {pc pc' : TaskPc}
    (h : Stay a arg o x pc pc' x') : x.freed = false := by
  cases h <;> assumption

omit [DecidableEq ρ] [DecidableEq ψ] in
theorem misuse_worker {i : Fin 64} {o : Oracle} : s.misuse (.worker i o) = none ↔
    ∀ task, (s.pool.pool.workers i).pc = .func task → (s.taskPc i = .issue ∨ ∃ ok, s.taskPc i = .mark ok) →
      (s.transfers task.taskArg.userArg.sync).freed = false := by
  simp only [misuse]
  split
  · rename_i hpc htp
    simp [hpc, htp]
  · rename_i hpc htp
    simp [hpc, htp]
  · rename_i hissue hmark
    refine iff_of_true rfl fun task hpc htp => ?_
    rcases htp with htp | ⟨ok, htp⟩
    · exact absurd htp (hissue task hpc)
    · exact absurd htp (hmark task ok hpc)

/-- What a section of a worker that executes a task leaves as it is. -/
structure WorkerMove (s : Sys ρ ψ) (i : Fin 64) (o : Oracle) (s' : Sys ρ ψ) : Prop where
  threads : s'.pool.threads = s.pool.threads
  pool : s'.pool.pool = s.pool.pool ∨ s.pool.pool.workerStep i o = some s'.pool.pool
  taskPc : ∀ j, j ≠ i → s'.taskPc j = s.taskPc j
  transfer : ∀ q, (s'.transfers q).caller = (s.transfers q).caller ∧ (s'.transfers q).waiter = (s.transfers q).waiter ∧
    (s'.transfers q).freed = (s.transfers q).freed ∧
    (s'.transfers q).sync.totalTasks = (s.transfers q).sync.totalTasks
  sound : s'.misuse (.worker i {}) = none

theorem worker_move {i : Fin 64} {o : Oracle} (hm : (s.pool.pool.workers i).mutexFree = false)
    (hs : step args s (.worker i o) = some s') : WorkerMove s i o s' := by
  have hset : ∀ {q₀ : ρ} {x : Transfer}, x.caller = (s.transfers q₀).caller ∧ x.waiter = (s.transfers q₀).waiter ∧
      x.freed = (s.transfers q₀).freed ∧ x.sync.totalTasks = (s.transfers q₀).sync.totalTasks → ∀ q,
      ((s.setTransfer q₀ x).transfers q).caller = (s.transfers q).caller ∧
      ((s.setTransfer q₀ x).transfers q).waiter = (s.transfers q).waiter ∧
      ((s.setTransfer q₀ x).transfers q).freed = (s.transfers q).freed ∧
      ((s.setTransfer q₀ x).transfers q).sync.totalTasks = (s.transfers q).sync.totalTasks := by
    intro q₀ x hx q
    rw [setTransfer_transfers]
    split
    · rename_i hq
      rw [hq]
      exact hx
    · exact ⟨rfl, rfl, rfl, rfl⟩
  -- a worker that holds its mutex starts no task function
  have hfunc : ∀ {p}, s.pool.step (.worker i o) = some p → ∀ task, (p.pool.workers i).pc ≠ .func task := by
    intro p hp task htask
    cases PoolSys.step_cases hp with
    | worker _ _ p hw =>
      cases hw with
      | park st pc hpc hq hpark => simp [WorkerThread.mutexFree, hpc] at hm
      | take task' rest hpc => simp [WorkerThread.mutexFree, hpc] at hm
      | finish task' st pc hpc hpark => rcases hpark with ⟨rfl, -⟩ | ⟨rfl, -⟩ <;> simp at htask
      | dec task' ctx c hpc hd => simp only [Pool.setPc_workers_self] at htask; split at htask <;> cases htask
      | decDangling task' ctx hpc hd => simp only [Pool.setPc_workers_self] at htask; split at htask <;> cases htask
      | _ => simp at htask
  have hpool : ∀ {p}, s.pool.step (.worker i o) = some p → p.threads = s.pool.threads ∧
      s.pool.pool.workerStep i o = some p.pool := fun hp => by
    obtain ⟨p, hw, rfl⟩ := Option.map_eq_some_iff.1 hp
    exact ⟨rfl, hw⟩
  cases step_cases hs with
  | worker _ _ p hpc hp =>
    exact ⟨(hpool hp).1, .inr (hpool hp).2, fun _ _ => rfl, fun _ => ⟨rfl, rfl, rfl, rfl⟩,
      misuse_worker.2 fun task ht => absurd ht (hfunc hp task)⟩
  | stay _ _ task q₀ pc x hpc hq hst =>
    refine ⟨rfl, .inl rfl, fun j hj => Function.update_of_ne hj .., hset hst.frame, misuse_worker.2 fun task' ht _ => ?_⟩
    obtain rfl : task = task' := WorkerPc.func.inj (hpc.symm.trans ht)
    rw [hq]
    exact (hset hst.frame q₀).2.2.1.trans hst.freed
  | leave _ _ task q₀ x p hpc hq hl hp =>
    exact ⟨(hpool hp).1, .inr (hpool hp).2, fun j hj => Function.update_of_ne hj .., hset hl.frame,
      misuse_worker.2 fun task ht => absurd ht (hfunc hp task)⟩

/-- A bound on the steps of worker `i` before it gives its mutex back. -/
def busy (s : Sys ρ ψ) (i : Fin 64) : Nat :=
  (s.pool.pool.workers i).pc.held * 8 + match s.taskPc i with
    | .issue => 6
    | .mark _ => 5
    | .readLast => 4
    | .readStream => 3
    | .readEvent => 2
    | .record => 1

omit [DecidableEq ρ] [DecidableEq ψ] in
theorem busy_lt (s : Sys ρ ψ) (i : Fin 64) : s.busy i < 64 := by
  have := (s.pool.pool.workers i).pc.held_le
  unfold busy
  split <;> omega

variable (args) in
/-- A worker that holds its mutex gets on with its task. -/
theorem worker_held {i : Fin 64} (hd : s.pool.pool.isDestroying = false)
    (hm : (s.pool.pool.workers i).mutexFree = false) (o : Oracle) :
    ∃ s', step args s (.worker i o) = some s' ∧ s'.busy i < s.busy i := by
  obtain ⟨p, hp⟩ := Pool.workerStep_held hm o
  have hheld := (Pool.works hd hm hp).held
  have hleave : ∀ (q : ρ) (x : Transfer), ∃ s', ((s.setTransfer q x).setTaskPc i .issue).poolStep (.worker i o) = some s' ∧
      s'.busy i < s.busy i := by
    intro q x
    refine ⟨{ (s.setTransfer q x).setTaskPc i .issue with pool := { s.pool with pool := p } }, ?_, ?_⟩
    · exact Option.map_eq_some_iff.2 ⟨_, Option.map_eq_some_iff.2 ⟨p, hp, rfl⟩, rfl⟩
    · simp only [busy, setTaskPc, Function.update_self]
      split <;> omega
  have hpass : ∃ s', s.poolStep (.worker i o) = some s' ∧ s'.busy i < s.busy i := by
    refine ⟨{ s with pool := { s.pool with pool := p } },
      Option.map_eq_some_iff.2 ⟨_, Option.map_eq_some_iff.2 ⟨p, hp, rfl⟩, rfl⟩, ?_⟩
    simp only [busy]
    omega
  cases hpc : (s.pool.pool.workers i).pc with
  | func task =>
    simp only [step, hpc, taskStep]
    split
    · exact hleave ..
    · exact hleave ..
    · exact hleave ..
    · rename_i htp _
      exact ⟨_, rfl, by simp [busy, setTaskPc, setTransfer, htp]⟩
    · rename_i htp _
      split
      · exact hleave ..
      · exact ⟨_, rfl, by simp [busy, setTaskPc, setTransfer, htp]⟩
    · rename_i htp _
      split
      · exact ⟨_, rfl, by simp [busy, setTaskPc, setTransfer, htp]⟩
      · exact hleave ..
    · rename_i htp _
      exact ⟨_, rfl, by simp [busy, setTaskPc, setTransfer, htp]⟩
    · rename_i htp _
      exact ⟨_, rfl, by simp [busy, setTaskPc, setTransfer, htp]⟩
  | _ => simpa only [step, hpc] using hpass

/-! ### Before the call -/

/-- No task is counted before the tasks are accepted. -/
theorem uncounted_step {a : Action ρ ψ} (hl : Linked args s) (hs : step args s a = some s')
    (h : (s.pool.threads (.caller q)).accepted = false → (s.transfers q).sync.completedTasks = 0)
    (hacc : (s'.pool.threads (.caller q)).accepted = false) : (s'.transfers q).sync.completedTasks = 0 := by
  have hacc₀ : (s.pool.threads (.caller q)).accepted = false := by
    by_contra ht
    have ht' : (s'.pool.threads (.caller q)).accepted = true := by
      rcases pool_step hs with hp | ⟨pa, hp⟩
      · rw [hp]; simpa using ht
      · exact PoolSys.accepted_step hl.tracked hp (by simpa using ht)
    rw [hacc] at ht'
    cases ht'
  have hzero := h hacc₀
  have hrun : ∀ i x, (s.progress q).run i = some x → False := fun i x hi => by
    rw [hl.accepted_of_run hi] at hacc₀
    cases hacc₀
  have hm := move hl hs q
  change (s'.progress q).transfer.sync.completedTasks = 0
  generalize s'.progress q = v' at hm
  cases hm with
  | stay i o task pc pc' x hr hs => exact (hrun i _ hr).elim
  | leave i o task pc x hr hl => exact (hrun i _ hr).elim
  | _ => exact hzero

theorem idle_request {as : List (Action ρ ψ)} (h : exec (step args) start as = some s)
    (hc : (s.transfers q).caller = .idle) : Linked args s ∧ PoolSys.Up s.pool.pool ∧
      (s.transfers q).waiter = .idle ∧ (s.transfers q).sync.completedTasks = 0 ∧
      s.pool.threads (.caller q) = .idle ∧ s.pool.threads (.waiter q) = .idle := by
  have hl := linked h
  obtain ⟨hcaller, hwaiter, hwaited, -⟩ := hl.request q
  rw [hc] at hcaller
  have hidle : (s.transfers q).waiter = .idle := hwaited.resolve_right fun ⟨ok, hok⟩ => by
    rw [hc] at hok
    cases hok
  rw [hidle] at hwaiter
  have hinv := exec_inv' (I := fun s : Sys ρ ψ => Linked args s ∧ PoolSys.Up s.pool.pool ∧
      ((s.pool.threads (.caller q)).accepted = false → (s.transfers q).sync.completedTasks = 0))
    (fun u a u' hi (hs : step args u a = some u') => ⟨hi.1.step hs, ?_, uncounted_step hi.1 hs hi.2.2⟩)
    ⟨linked_start, ⟨fun _ _ => rfl, rfl, rfl⟩, fun _ => rfl⟩ h
  · have hthread : s.pool.threads (.caller q) = .idle := hcaller
    exact ⟨hl, hinv.2.1, hidle, hinv.2.2 (by rw [hthread]; rfl), hthread, hwaiter⟩
  · rcases pool_step hs with hp | ⟨pa, hp⟩
    · rw [hp]; exact hi.2.1
    · exact hi.2.1.step hp

/-! ### The call -/

/-- What the call of `q`, made on `s₀` with the tasks of `b`, has left so far. -/
def Left (s₀ : Sys ρ ψ) (q : ρ) (b : Submit (TaskArg ρ) Empty) (s : Sys ρ ψ) : CallerPc → Prop
  | .idle => False
  | .registering => Pool.Putting s₀.pool.pool (.caller q) b s.pool.pool (s.pool.threads (.caller q))
  | .posting _ | .failing | .returned true true =>
    ∃ ids, Pool.Put s₀.pool.pool (.caller q) b s.pool.pool (.ids ids)
  | .returned true false => (∃ ids, Pool.Put s₀.pool.pool (.caller q) b s.pool.pool (.ids ids)) ∧
    (s.transfers q).sync.requestCompleted = true
  | .returned false _ => Unchanged s₀ s

structure Calling (args : ρ → Request) (s₀ : Sys ρ ψ) (q : ρ) (b : Submit (TaskArg ρ) Empty) (s : Sys ρ ψ) : Prop where
  linked : Linked args s
  waiter : (s.transfers q).waiter = .idle
  completed : (s.transfers q).sync.completedTasks = 0
  total : (s.transfers q).sync.totalTasks = b.args.length
  thread : s.pool.threads (.waiter q) = .idle
  sound : ∀ i, s₀.pool.pool.ComesTo i → s.misuse (.worker i {}) = none
  left : Left s₀ q b s (s.transfers q).caller

/-- What a call is made on. -/
structure Ground (s₀ : Sys ρ ψ) : Prop where
  up : PoolSys.Up s₀.pool.pool
  clean : Clean s₀

theorem caller_rest (hl : Linked args s) (hc : (s.transfers q).caller ≠ .registering) :
    s.pool.threads (.caller q) = .idle ∨ ∃ ret, s.pool.threads (.caller q) = .done ret := by
  have hcaller := (hl.request q).caller
  revert hcaller hc
  cases (s.transfers q).caller with
  | idle => exact fun _ hc => .inl hc
  | registering => exact fun hc => absurd rfl hc
  | posting i => exact fun _ ⟨_, ids, hids⟩ => .inr ⟨_, hids⟩
  | failing => exact fun _ ⟨_, ids, hids⟩ => .inr ⟨_, hids⟩
  | returned handle ok =>
    cases handle with
    | false => exact fun _ hc => hc.imp_right fun ⟨ret, hret, _⟩ => ⟨ret, hret⟩
    | true => exact fun _ ⟨_, ids, hids⟩ => .inr ⟨_, hids⟩

omit [DecidableEq ρ] [DecidableEq ψ] in
theorem not_waiting {t : Tid ρ ψ} (h : s.pool.threads t = .idle ∨ ∃ ret, s.pool.threads t = .done ret) :
    s.pool.pool.waitsFor (s.pool.threads t) = none := by
  rcases h with h | ⟨ret, h⟩ <;> rw [h] <;> rfl

/-- A call that has returned, or not come to the pool yet, writes to no freed context. -/
theorem stray_rest {a : Action ρ ψ} {t : Tid ρ ψ} {o : Oracle} (ha : poolAct a = some (.thread t o))
    (h : s.pool.threads t = .idle ∨ ∃ ret, s.pool.threads t = .done ret) : s.stray a = none := by
  rw [stray, ha]
  refine PoolSys.stray_thread (fun b nodes ctx hpc => ?_) fun r ctx n hpc => ?_ <;>
    rcases h with h | ⟨ret, h⟩ <;> rw [h] at hpc <;> cases hpc

namespace Calling
variable {s₀ : Sys ρ ψ} {b : Submit (TaskArg ρ) Empty} {x : Action ρ ψ × Found ρ ψ}

theorem registering {i : Fin 64} (h : Calling args s₀ q b s)
    (hi : s.pool.pool.waitsFor (s.pool.threads (.caller q)) = some i) : (s.transfers q).caller = .registering ∧
      Pool.Putting s₀.pool.pool (.caller q) b s.pool.pool (s.pool.threads (.caller q)) := by
  have hc : (s.transfers q).caller = .registering := by
    by_contra hc
    rw [not_waiting (caller_rest h.linked hc)] at hi
    cases hi
  have hleft := h.left
  rw [hc] at hleft
  exact ⟨hc, hleft⟩

theorem noMisuse (h₀ : Ground s₀) (h : Calling args s₀ q b s) (ha : CallerAct q s x) : NoMisuse s x := by
  obtain ⟨a, y⟩ := x
  cases a with
  | caller q' o =>
    obtain ⟨rfl, -⟩ := ha
    refine ⟨?_, rfl⟩
    by_cases hc : (s.transfers q').caller = .registering
    · have hleft := h.left
      rw [hc] at hleft
      have hput : Pool.Putting s₀.pool.pool (.caller q') b s.pool.pool (s.pool.threads (.caller q')) := hleft
      refine PoolSys.stray_thread (fun b' nodes ctx hpc => ?_) fun r ctx n hpc => ?_ <;> rw [hpc] at hput
      · exact hput.deref_ne
      · exact hput.elim
    · exact stray_rest rfl (caller_rest h.linked hc)
  | worker i o =>
    have hcoming := (h.registering ha).2.coming h₀.up.alive ha
    exact ⟨PoolSys.stray_worker hcoming.live, h.sound i hcoming.comesTo⟩
  | _ => exact ha.elim

theorem set (h : Calling args s₀ q b s) {x : Transfer} (hlink : Linked args (s.setTransfer q x))
    (hw : x.waiter = (s.transfers q).waiter) (hn : x.sync.completedTasks = (s.transfers q).sync.completedTasks)
    (ht : x.sync.totalTasks = (s.transfers q).sync.totalTasks) (hf : x.freed = (s.transfers q).freed)
    (hl : Left s₀ q b (s.setTransfer q x) x.caller) : Calling args s₀ q b (s.setTransfer q x) := by
  have hfreed : ∀ q', ((s.setTransfer q x).transfers q').freed = (s.transfers q').freed := by
    intro q'
    rw [setTransfer_transfers]
    split
    · rename_i hq
      rw [hq, hf]
    · rfl
  refine ⟨hlink, ?_, ?_, ?_, h.thread, fun i hi => misuse_worker.2 fun task hpc htp => ?_, ?_⟩
  · rw [setTransfer_self, hw, h.waiter]
  · rw [setTransfer_self, hn, h.completed]
  · rw [setTransfer_self, ht, h.total]
  · rw [hfreed]
    exact misuse_worker.1 (h.sound i hi) task hpc htp
  · rw [setTransfer_self]
    exact hl

theorem worker {i : Fin 64} {o : Oracle} (h₀ : Ground s₀) (h : Calling args s₀ q b s)
    (hi : s.pool.pool.waitsFor (s.pool.threads (.caller q)) = some i)
    (hs : Sys.step args s (.worker i o) = some s') : Calling args s₀ q b s' := by
  obtain ⟨hlocks, hm⟩ := Pool.waitsFor_eq_some.1 hi
  have hmove := worker_move hm hs
  obtain ⟨hc, hput⟩ := h.registering hi
  obtain ⟨hcaller, hwaiter, -, htotal⟩ := hmove.transfer q
  refine ⟨h.linked.step hs, hwaiter.trans h.waiter, ?_, htotal.trans h.total, ?_, fun j hj => ?_, ?_⟩
  · refine uncounted_step h.linked hs (fun _ => h.completed) ?_
    rw [hmove.threads]
    exact Pc.accepted_of_locks hlocks
  · rw [hmove.threads]
    exact h.thread
  · rcases eq_or_ne j i with rfl | hne
    · exact hmove.sound
    · refine misuse_worker.2 fun task hpc htp => ?_
      rw [(hmove.transfer _).2.2.1]
      rw [hmove.taskPc j hne] at htp
      refine misuse_worker.1 (h.sound j hj) task ?_ htp
      rcases hmove.pool with hp | hp
      · rwa [hp] at hpc
      · rwa [Pool.workers_of_ne (Pool.workerStep_cases hp) hne] at hpc
  · rw [hcaller, hc]
    show Pool.Putting _ _ _ s'.pool.pool (s'.pool.threads _)
    rw [hmove.threads]
    rcases hmove.pool with hp | hp
    · rw [hp]
      exact hput
    · exact hput.worker h₀.up.alive hi hp

theorem step (h₀ : Ground s₀) (hb : b.batch = true) (h : Calling args s₀ q b s) (ha : CallerAct q s x)
    (hs : memStep args s x = some s') : Calling args s₀ q b s' := by
  rw [memStep_of_noMisuse (h.noMisuse h₀ ha)] at hs
  obtain ⟨a, y⟩ := x
  cases a with
  | worker i o => exact h.worker h₀ ha hs
  | caller q' o =>
    obtain ⟨rfl, ho⟩ := ha
    have hleft := h.left
    have hlink := h.linked.step hs
    cases step_cases hs with
    | submit _ _ p hc hp =>
      rw [hc] at hleft
      have hpc := fun i => PoolSys.pc_of_ne hp (j := i) (by simp)
      cases PoolSys.step_cases hp with
      | thread _ _ p pc hpt =>
        refine ⟨hlink, h.waiter, h.completed, h.total, ?_, fun i hi => misuse_worker.2 fun task ht htp => ?_, ?_⟩
        · exact (PoolSys.setThread_threads ..).trans ((if_neg (by simp)).trans h.thread)
        · exact misuse_worker.1 (h.sound i hi) task ((hpc i).symm.trans ht) htp
        · show Left s₀ q' b _ (s.transfers q').caller
          rw [hc]
          show Pool.Putting _ _ _ p (PoolSys.threads _ _)
          rw [PoolSys.setThread_threads, if_pos rfl]
          exact Pool.Putting.step h₀.up.rested h₀.up.alive h₀.clean.live hb hleft (ho hc) hpt
    | registered _ _ ids hc ht =>
      rw [hc] at hleft
      have hput : Pool.Putting s₀.pool.pool (.caller q') b s.pool.pool (s.pool.threads (.caller q')) := hleft
      rw [ht] at hput
      exact h.set hlink rfl rfl rfl rfl ⟨ids, hput⟩
    | refused _ _ ret hc ht hret =>
      rw [hc] at hleft
      have hput : Pool.Putting s₀.pool.pool (.caller q') b s.pool.pool (s.pool.threads (.caller q')) := hleft
      rw [ht] at hput
      refine h.set hlink rfl rfl rfl rfl ?_
      cases (show Pool.Put s₀.pool.pool (.caller q') b s.pool.pool ret from hput) with
      | refused hsel hagree => exact ⟨64, le_rfl, .of_eq hagree.workers hagree.reqHash⟩
      | placed i nodes => exact absurd rfl (hret _)
    | firstPost _ _ i hc ht =>
      rw [hc] at hleft
      refine h.set hlink rfl rfl rfl rfl ?_
      simp only
      split <;> exact hleft
    | recvPost _ _ i pc hc ht hpc =>
      rw [hc] at hleft
      refine h.set hlink rfl rfl rfl rfl ?_
      rcases hpc with ⟨rfl, -⟩ | ⟨rfl, -⟩ | ⟨rfl, -⟩ <;> exact hleft
    | fail _ _ hc =>
      rw [hc] at hleft
      refine h.set hlink rfl rfl rfl rfl ⟨hleft, ?_⟩
      rw [setTransfer_transfers, if_pos rfl]
  | _ => exact ha.elim

theorem exec {xs : List (Action ρ ψ × Found ρ ψ)} (h₀ : Ground s₀) (hb : b.batch = true) (h : Calling args s₀ q b s)
    (hal : Along (memStep args) (CallerAct q) s xs) (he : Lts.exec (memStep args) s xs = some s') :
    Calling args s₀ q b s' :=
  exec_inv (fun _ _ _ hi ha (hs : memStep args _ _ = some _) => hi.step h₀ hb ha hs) h hal he

/-- The submission is on its way, or done. -/
def Submitting (q : ρ) (s : Sys ρ ψ) : Prop :=
  (s.transfers q).caller = .registering ∨ ∃ i, (s.transfers q).caller = .posting i

/-- A bound on the steps before the first chunk is posted, those of the workers that the call waits for included. -/
def toGo (q : ρ) (n : Nat) (s : Sys ρ ψ) : Nat :=
  match (s.transfers q).caller with
  | .registering => ((s.pool.threads (.caller q)).toGo n + 1) * 64 +
    (s.pool.pool.waitsFor (s.pool.threads (.caller q))).elim 0 s.busy
  | _ => 0

omit [DecidableEq ρ] [DecidableEq ψ] in
theorem toGo_registering {n : Nat} (hc : (s.transfers q).caller = .registering) :
    toGo q n s = ((s.pool.threads (.caller q)).toGo n + 1) * 64 +
      (s.pool.pool.waitsFor (s.pool.threads (.caller q))).elim 0 s.busy := by
  simp only [toGo, hc]

omit [DecidableEq ρ] [DecidableEq ψ] in
theorem toGo_lt (q : ρ) (n : Nat) (s : Sys ρ ψ) : toGo q n s < ((s.pool.threads (.caller q)).toGo n + 2) * 64 := by
  unfold toGo
  split
  · cases s.pool.pool.waitsFor (s.pool.threads (.caller q)) with
    | none => simp only [Option.elim_none]; omega
    | some i =>
      have := s.busy_lt i
      simp only [Option.elim_some]
      omega
  · omega

/-- A submission that has a worker to choose is never stuck before the posts. -/
theorem progress {k : Fin 64} (h₀ : Ground s₀) (hb : b.batch = true) (hk : s₀.pool.pool.Chooses k)
    (h : Calling args s₀ q b s) (hsub : Submitting q s) : (∃ i, (s.transfers q).caller = .posting i) ∨
      ∃ x s', CallerAct q s x ∧ memStep args s x = some s' ∧ Submitting q s' ∧
        toGo q b.args.length s' < toGo q b.args.length s := by
  refine hsub.symm.imp id fun hc => ?_
  have hleft := h.left
  rw [hc] at hleft
  have hput : Pool.Putting s₀.pool.pool (.caller q) b s.pool.pool (s.pool.threads (.caller q)) := hleft
  have hcaller : CallerAct q s (.caller q {}, {}) := ⟨rfl, fun _ => ⟨rfl, rfl⟩⟩
  have hown : memStep args s (.caller q {}, {}) = Sys.step args s (.caller q {}) :=
    memStep_of_noMisuse (h.noMisuse h₀ hcaller)
  rcases Pool.Putting.progress (o := {}) h₀.up.rested h₀.up.alive h₀.clean.live hb hk hput ⟨rfl, rfl⟩ with
    ⟨ret, hret⟩ | ⟨i, hi⟩ | ⟨p, pc, hp, hlt⟩
  · rw [hret] at hput
    cases (show Pool.Put s₀.pool.pool (.caller q) b s.pool.pool ret from hput) with
    | refused hsel => exact absurd hk (hsel k)
    | placed i nodes =>
      let y : Transfer := { s.transfers q with caller := .posting 0 }
      refine ⟨_, s.setTransfer q y, hcaller, hown.trans ?_, .inr ⟨0, by rw [setTransfer_self]⟩, ?_⟩
      · simp only [Sys.step, callerStep, hc, hret, Pool.taskIds, y]
      · rw [toGo_registering hc]
        simp only [toGo, setTransfer_self, y]
        omega
  · have hact : CallerAct q s (.worker i {}, {}) := hi
    obtain ⟨hlocks, hm⟩ := Pool.waitsFor_eq_some.1 hi
    obtain ⟨s', hs, hlt⟩ := worker_held args h.linked.alive hm {}
    have hmove := worker_move hm hs
    have hc' := (hmove.transfer q).1.trans hc
    refine ⟨_, s', hact, (memStep_of_noMisuse (h.noMisuse h₀ hact)).trans hs, .inl hc', ?_⟩
    rw [toGo_registering hc, toGo_registering hc', hmove.threads, hi]
    refine Nat.add_lt_add_left ?_ _
    cases hi' : s'.pool.pool.waitsFor (s.pool.threads (.caller q)) with
    | none => exact Nat.zero_lt_of_lt hlt
    | some j =>
      obtain rfl : i = j := Option.some.inj (hlocks.symm.trans (Pool.waitsFor_eq_some.1 hi').1)
      exact hlt
  · have hnot : ∀ ret, s.pool.threads (.caller q) ≠ .done ret := fun ret hret => by
      rw [hret] at hp
      cases hp
    let u : Sys ρ ψ := { s with pool := { s.pool with pool := p }.setThread (.caller q) pc }
    have hthread : u.pool.threads (.caller q) = pc := (PoolSys.setThread_threads ..).trans (if_pos rfl)
    refine ⟨_, u, hcaller, hown.trans ?_, .inl hc, ?_⟩
    · simp only [Sys.step, callerStep, hc]
      split
      · rename_i ids hdone
        exact absurd hdone (hnot _)
      · rename_i ret hdone
        exact absurd hdone (hnot _)
      · simp only [poolStep, PoolSys.step, hp, Option.map_some]
        rfl
    · have hbound := toGo_lt q b.args.length u
      rw [hthread] at hbound
      rw [toGo_registering hc]
      omega

end Calling

theorem enter_cases {x : Pointers} {inited : Bool} {o : Oracle} (h₀ : Ground s) (hl : Linked args s)
    (hw : (s.transfers q).waiter = .idle) (hn : (s.transfers q).sync.completedTasks = 0)
    (hthread : s.pool.threads (.waiter q) = .idle) (he : enter args x inited s q o = some s') :
    (∃ ok, (s'.transfers q).caller = .returned false ok ∧ s'.pool = s.pool) ∨
      (args q).validateInput x inited = true ∧ (args q).Split ∧ ∃ b, (args q).Submits q b ∧ Calling args s q b s' ∧
        (s'.transfers q).caller = .registering := by
  unfold enter at he
  split at he
  swap
  · cases he
    exact .inl ⟨false, by rw [setTransfer_self], rfl⟩
  rename_i hvalid
  replace he : Sys.step args s (.call q o) = some s' := he
  have hlink := hl.step he
  cases step_cases he with
  | reject => exact .inl ⟨false, by rw [setTransfer_self], rfl⟩
  | single => exact .inl ⟨o.ok, by rw [setTransfer_self], rfl⟩
  | register _ _ p hc hlen hlt ho hp =>
    obtain ⟨b, hb, hsub⟩ := Request.validate_batch (q := q) (Request.taskArgs_ne hlen hlt)
    refine .inr ⟨hvalid, hlt, b, hsub, ?_, by rw [setTransfer_self]⟩
    cases PoolSys.step_cases hp with
    | call _ _ _ ht =>
      have henter : PoolSys.enter s.pool.pool o (.submitBatch ((args q).batch q)) = .select b [] 0 none 0xFFFFFFFF := by
        simp [PoolSys.enter, h₀.up.running, hb, ho]
      refine ⟨hlink, by rw [setTransfer_self]; exact hw, by rw [setTransfer_self]; exact hn, ?_, ?_,
        fun i hi => misuse_worker.2 fun task hpc htp => ?_, ?_⟩
      · rw [setTransfer_self, hsub.args]
      · exact (PoolSys.setThread_threads ..).trans ((if_neg (by simp)).trans hthread)
      · rw [setTransfer_transfers]
        split
        · rename_i hq
          rw [← hq]
          exact misuse_worker.1 (h₀.clean.sound i hi) task hpc htp
        · exact misuse_worker.1 (h₀.clean.sound i hi) task hpc htp
      · rw [setTransfer_self]
        show Pool.Putting s.pool.pool (.caller q) b s.pool.pool ((s.pool.setThread (.caller q)
          (PoolSys.enter s.pool.pool o (.submitBatch ((args q).batch q)))).threads (.caller q))
        rw [PoolSys.setThread_threads, if_pos rfl, henter]
        exact ⟨rfl, rfl, .start h₀.clean.live h₀.up.alive (.refl _)⟩

theorem returned_stays {xs : List (Action ρ ψ × Found ρ ψ)} {handle ok : Bool}
    (hthread : s.pool.threads (.caller q) = .idle) (hc : (s.transfers q).caller = .returned handle ok)
    (hal : Along (memStep args) (CallerAct q) s xs) (he : exec (memStep args) s xs = some s') : s' = s := by
  cases xs with
  | nil => cases he; rfl
  | cons x xs =>
    obtain ⟨u, hu, -⟩ := exec_cons.1 he
    obtain ⟨a, y⟩ := x
    cases a with
    | caller q' o =>
      obtain ⟨rfl, -⟩ := hal.1
      rw [memStep_of_noMisuse ⟨stray_rest rfl (.inl hthread), rfl⟩] at hu
      simp only [step, callerStep, hc] at hu
      cases hu
    | worker i o =>
      have hwait : s.pool.pool.waitsFor (s.pool.threads (.caller q)) = some i := hal.1
      rw [not_waiting (.inl hthread)] at hwait
      cases hwait
    | _ => exact hal.1.elim

/-! ### The wait -/

/-- What the wait for `q` has made of the pool `p₁`, where its request `r` has the context `c`. -/
def Cleaned (p₁ : Pool (Tid ρ ψ) (TaskArg ρ) Empty) (q : ρ) (r : UInt32) (c : RequestContext (Tid ρ ψ) Empty)
    (s : Sys ρ ψ) : WaiterPc → Prop
  | .idle => False
  | .waiting | .checking => s.pool.pool.workers = p₁.workers ∧ s.pool.pool.reqHash = p₁.reqHash ∧
    s.pool.threads (.waiter q) = .idle
  | .cancelling => Pool.Cutting p₁ r c s.pool.pool (s.pool.threads (.waiter q))
  | .freeing ok | .returned ok => (ok = false ∧ ∃ ret, s.pool.threads (.waiter q) = .done ret) ∧
    s.pool.pool.workers = (p₁.cut r c).workers ∧ s.pool.pool.reqHash = (p₁.cut r c).reqHash

structure Waiting (p₁ : Pool (Tid ρ ψ) (TaskArg ρ) Empty) (q : ρ) (r : UInt32) (c : RequestContext (Tid ρ ψ) Empty)
    (s : Sys ρ ψ) : Prop where
  completed : (s.transfers q).sync.requestCompleted = true
  short : (s.transfers q).sync.completedTasks ≠ (s.transfers q).sync.totalTasks
  running : s.pool.pool.isRunning = true
  cleaned : Cleaned p₁ q r c s (s.transfers q).waiter

namespace Waiting
variable {p₁ : Pool (Tid ρ ψ) (TaskArg ρ) Empty} {r : UInt32} {c : RequestContext (Tid ρ ψ) Empty}

theorem set (h : Waiting p₁ q r c s) {x : Transfer} (hx : x.sync = (s.transfers q).sync)
    (hl : Cleaned p₁ q r c (s.setTransfer q x) x.waiter) : Waiting p₁ q r c (s.setTransfer q x) := by
  refine ⟨?_, ?_, h.running, ?_⟩ <;> rw [setTransfer_self]
  · rw [hx]; exact h.completed
  · rw [hx]; exact h.short
  · exact hl

theorem noMisuse {o : Oracle} {y : Found ρ ψ} (hc : p₁.findReqContext r = some c) (h : Waiting p₁ q r c s) :
    NoMisuse s (.waiter q o, y) := by
  refine ⟨?_, rfl⟩
  have hclean := h.cleaned
  cases hw : (s.transfers q).waiter with
  | idle =>
    rw [hw] at hclean
    exact hclean.elim
  | waiting | checking =>
    rw [hw] at hclean
    exact stray_rest rfl (.inl hclean.2.2)
  | cancelling =>
    rw [hw] at hclean
    have hcut : Pool.Cutting p₁ r c s.pool.pool (s.pool.threads (.waiter q)) := hclean
    refine PoolSys.stray_thread (fun b nodes ctx hpc => ?_) fun r' ctx n hpc => ?_ <;> rw [hpc] at hcut
    · exact hcut.elim
    · exact hcut.deref_ne hc
  | freeing ok | returned ok =>
    rw [hw] at hclean
    exact stray_rest rfl (.inr hclean.1.2)

theorem step {o : Oracle} (hc : p₁.findReqContext (args q).key = some c) (h : Waiting p₁ q (args q).key c s)
    (hs : Sys.step args s (.waiter q o) = some s') : Waiting p₁ q (args q).key c s' := by
  have hclean := h.cleaned
  cases step_cases hs with
  | wake _ _ hw hreq =>
    rw [hw] at hclean
    exact h.set rfl hclean
  | success _ _ hw he => exact absurd he h.short
  | cancel _ _ p hw he hp =>
    rw [hw] at hclean
    obtain ⟨hworkers, hhash, -⟩ := hclean
    cases PoolSys.step_cases hp with
    | call _ _ _ ht =>
      have henter : PoolSys.enter s.pool.pool o (.cancel (args q).key) = .cancelFind (args q).key := if_pos h.running
      refine ⟨by rw [setTransfer_self]; exact h.completed, by rw [setTransfer_self]; exact h.short, h.running, ?_⟩
      rw [setTransfer_self]
      show Pool.Cutting p₁ (args q).key c s.pool.pool
        ((s.pool.setThread (.waiter q) (PoolSys.enter s.pool.pool o (.cancel (args q).key))).threads (.waiter q))
      rw [PoolSys.setThread_threads, if_pos rfl, henter]
      exact ⟨rfl, hworkers, hhash⟩
  | cancelling _ _ p hw hp =>
    rw [hw] at hclean
    have hflags := (PoolSys.step_flags hp).1
    cases PoolSys.step_cases hp with
    | thread _ _ p pc hpt =>
      refine ⟨h.completed, h.short, hflags.trans h.running, ?_⟩
      show Cleaned p₁ q (args q).key c _ (s.transfers q).waiter
      rw [hw]
      show Pool.Cutting p₁ (args q).key c p (({ s.pool with pool := p }.setThread (.waiter q) pc).threads (.waiter q))
      rw [PoolSys.setThread_threads, if_pos rfl]
      exact Pool.Cutting.step hc hclean hpt
  | cancelled _ _ ret hw ht =>
    rw [hw] at hclean
    have hcut : Pool.Cutting p₁ (args q).key c s.pool.pool (s.pool.threads (.waiter q)) := hclean
    rw [ht] at hcut
    exact h.set rfl ⟨⟨rfl, ret, ht⟩, hcut.2⟩
  | free _ _ ok hw =>
    rw [hw] at hclean
    exact h.set rfl hclean

/-- A bound on the sections before the return. -/
def toGo (q : ρ) (s : Sys ρ ψ) : Nat :=
  match (s.transfers q).waiter with
  | .waiting => 8
  | .checking => 7
  | .cancelling => (s.pool.threads (.waiter q)).toGo 0 + 2
  | .freeing _ => 1
  | _ => 0

omit [DecidableEq ρ] [DecidableEq ψ] in
theorem toGo_cancelling {s : Sys ρ ψ} (hw : (s.transfers q).waiter = .cancelling) :
    toGo q s = (s.pool.threads (.waiter q)).toGo 0 + 2 := by
  simp only [toGo, hw]

/-- While the worker that the context is bound to is free, the wait is never blocked. -/
theorem progress {o : Oracle} (hc : p₁.findReqContext (args q).key = some c)
    (hm : (p₁.workers c.workerIdx).mutexFree = true) (h : Waiting p₁ q (args q).key c s) :
    (s.transfers q).waiter = .returned false ∨
      ∃ s', Sys.step args s (.waiter q o) = some s' ∧ toGo q s' < toGo q s := by
  have hclean := h.cleaned
  cases hw : (s.transfers q).waiter with
  | idle =>
    rw [hw] at hclean
    exact hclean.elim
  | waiting =>
    refine .inr ⟨s.setTransfer q { s.transfers q with waiter := .checking }, ?_, ?_⟩
    · simp only [Sys.step, waiterStep, hw, h.completed, if_true]
    · simp only [toGo, setTransfer_self, hw]
      omega
  | checking =>
    rw [hw] at hclean
    obtain ⟨-, -, hidle⟩ := hclean
    have henter : PoolSys.enter s.pool.pool o (.cancel (args q).key) = .cancelFind (args q).key := if_pos h.running
    let y := s.setTransfer q { s.transfers q with waiter := .cancelling }
    refine .inr ⟨{ y with pool := s.pool.setThread (.waiter q) (.cancelFind (args q).key) }, ?_, ?_⟩
    · simp only [Sys.step, waiterStep, hw, if_neg h.short, poolStep, PoolSys.step]
      rw [show (s.setTransfer q { s.transfers q with waiter := .cancelling }).pool.threads (.waiter q) = .idle from hidle]
      simp only [Option.map_some]
      rw [show (s.setTransfer q { s.transfers q with waiter := .cancelling }).pool.pool = s.pool.pool from rfl, henter]
      rfl
    · rw [toGo_cancelling (congrArg Transfer.waiter (setTransfer_self s q _)), toGo, hw]
      show (((s.pool.setThread (.waiter q) (.cancelFind (args q).key)).threads (.waiter q)).toGo 0 + 2) < 7
      rw [PoolSys.setThread_threads, if_pos rfl]
      exact Nat.lt_succ_self 6
  | cancelling =>
    rw [hw] at hclean
    have hcut : Pool.Cutting p₁ (args q).key c s.pool.pool (s.pool.threads (.waiter q)) := hclean
    rw [toGo_cancelling hw]
    refine .inr ?_
    rcases hcut.progress (t := .waiter q) (o := o) (n := 0) hc hm with ⟨ret, ht⟩ | ⟨p, pc, hp, hlt⟩
    · refine ⟨s.setTransfer q { s.transfers q with waiter := .freeing false }, ?_, ?_⟩
      · simp only [Sys.step, waiterStep, hw, ht]
      · simp only [toGo, setTransfer_self]
        omega
    · have hnot : ∀ ret, s.pool.threads (.waiter q) ≠ .done ret := fun ret ht => by
        rw [ht] at hp
        cases hp
      refine ⟨{ s with pool := { s.pool with pool := p }.setThread (.waiter q) pc }, ?_, ?_⟩
      · simp only [Sys.step, waiterStep, hw, poolStep, PoolSys.step, hp, Option.map_some]
      · refine lt_of_eq_of_lt (toGo_cancelling (by exact hw)) ?_
        show (PoolSys.threads ({ s.pool with pool := p }.setThread (.waiter q) pc) (.waiter q)).toGo 0 + 2 < _
        rw [PoolSys.setThread_threads, if_pos rfl]
        exact Nat.add_lt_add_right hlt 2
  | freeing ok =>
    refine .inr ⟨s.setTransfer q { s.transfers q with waiter := .returned ok, freed := true }, ?_, ?_⟩
    · simp only [Sys.step, waiterStep, hw]
    · simp only [toGo, setTransfer_self, hw]
      omega
  | returned ok =>
    rw [hw] at hclean
    rw [hclean.1.1]
    exact .inl rfl

end Waiting

theorem wait_called {s₀ : Sys ρ ψ} {b : Submit (TaskArg ρ) Empty} (h : Calling args s₀ q b s)
    (hc : (s.transfers q).caller = .returned true false) (r : UInt32) (c : RequestContext (Tid ρ ψ) Empty) :
    ∃ u, memStep args s (.wait q, {}) = some u ∧ Waiting s.pool.pool q r c u := by
  have hleft := h.left
  rw [hc] at hleft
  refine ⟨s.setTransfer q { s.transfers q with waiter := .waiting }, ?_, ?_, ?_, h.linked.running, ?_⟩
  · rw [memStep_of_noMisuse ⟨rfl, rfl⟩]
    simp only [step, hc, h.waiter]
  · rw [setTransfer_self]
    exact hleft.2
  · rw [setTransfer_self]
    show (s.transfers q).sync.completedTasks ≠ (s.transfers q).sync.totalTasks
    rw [h.completed, h.total]
    exact fun h0 => b.args_ne (List.length_eq_zero_iff.1 h0.symm)
  · rw [setTransfer_self]
    exact ⟨rfl, rfl, h.thread⟩

theorem wait_returns {s₀ : Sys ρ ψ} {b : Submit (TaskArg ρ) Empty} {c : RequestContext (Tid ρ ψ) Empty}
    (h : Calling args s₀ q b s) (hc : (s.transfers q).caller = .returned true false)
    (hf : s.pool.pool.findReqContext (args q).key = some c)
    (hm : (s.pool.pool.workers c.workerIdx).mutexFree = true) (ms : Nat → Oracle × Found ρ ψ) :
    ∃ n s', exec (memStep args) s (waitRun q ms n) = some s' ∧ (s'.transfers q).waiter = .returned false := by
  obtain ⟨u, hu, hw⟩ := wait_called h hc (args q).key c
  have hfinish : ∀ v, Waiting s.pool.pool q (args q).key c v → (v.transfers q).waiter = .returned false ∨
      ∀ m : Oracle × Found ρ ψ, ∃ v', memStep args v (.waiter q m.1, m.2) = some v' ∧
        Waiting s.pool.pool q (args q).key c v' ∧ Waiting.toGo q v' < Waiting.toGo q v := by
    intro v hv
    by_cases hret : (v.transfers q).waiter = .returned false
    · exact .inl hret
    · refine .inr fun m => ?_
      obtain ⟨v', hs, hlt⟩ := (hv.progress (o := m.1) hf hm).resolve_left hret
      exact ⟨v', (memStep_of_noMisuse (hv.noMisuse hf)).trans hs, hv.step hf hs, hlt⟩
  obtain ⟨n, s', he, -, hret⟩ := exec_finish (fun m : Oracle × Found ρ ψ => (Action.waiter q m.1, m.2)) (Waiting.toGo q)
    hfinish hw ms
  exact ⟨n, s', exec_cons.2 ⟨u, hu, he⟩, hret⟩

theorem wait_leaves {s₀ : Sys ρ ψ} {b : Submit (TaskArg ρ) Empty} {c : RequestContext (Tid ρ ψ) Empty}
    (h : Calling args s₀ q b s) (hc : (s.transfers q).caller = .returned true false)
    (hf : s.pool.pool.findReqContext (args q).key = some c) {ms : Nat → Oracle × Found ρ ψ} {n : Nat}
    (he : exec (memStep args) s (waitRun q ms n) = some s') (hret : (s'.transfers q).waiter = .returned false) :
    s'.pool.pool.workers = (s.pool.pool.cut (args q).key c).workers ∧
      s'.pool.pool.reqHash = (s.pool.pool.cut (args q).key c).reqHash := by
  obtain ⟨u, hu, he⟩ := exec_cons.1 he
  obtain ⟨u', hu', hw⟩ := wait_called h hc (args q).key c
  obtain rfl := Option.some.inj (hu.symm.trans hu')
  have hwait : Waiting s.pool.pool q (args q).key c s' := by
    refine exec_inv (C := fun _ x => ∃ o y, x = (Action.waiter q o, y)) ?_ hw (Along.of_forall ?_) he
    · rintro v _ v' hv ⟨o, y, rfl⟩ hs
      rw [memStep_of_noMisuse (hv.noMisuse hf)] at hs
      exact hv.step hf hs
    · intro x hx
      obtain ⟨k, -, rfl⟩ := List.mem_map.1 hx
      exact ⟨_, _, rfl⟩
  have hclean := hwait.cleaned
  rw [hret] at hclean
  exact hclean.2

/-! ### A call that fails -/

theorem enter_submits {x : Pointers} {inited : Bool} (hv : (args q).validateInput x inited = true)
    (hsplit : (args q).Split) (hc : (s.transfers q).caller = .idle) (hthread : s.pool.threads (.caller q) = .idle) :
    ∃ u, enter args x inited s q {} = some u ∧ (u.transfers q).caller = .registering := by
  have hlen : (args q).len ≠ 0 := by
    cases ht : (args q).type <;> simp [Request.validateInput, ht] at hv <;> exact hv.1.2
  have hsmall : ¬((args q).type = .send ∧ (args q).len.toNat ≤ defaultChunkSize) :=
    fun h => absurd (hsplit h.1) (not_lt.2 h.2)
  let y : Transfer := { s.transfers q with
    caller := .registering, sync := { (s.transfers q).sync with totalTasks := ((args q).taskArgs q).length } }
  let p := s.pool.setThread (.caller q) (PoolSys.enter s.pool.pool {} (.submitBatch ((args q).batch q)))
  refine ⟨{ s.setTransfer q y with pool := p }, ?_, congrArg Transfer.caller (setTransfer_self s q y)⟩
  have hpool : s.pool.step (.call (.caller q) (.submitBatch ((args q).batch q)) {}) = some p := by
    simp only [PoolSys.step, hthread, p]
  unfold enter
  rw [if_pos hv]
  simp only [callStep, hc, if_neg hlen, if_neg hsmall, Bool.not_true, Bool.false_eq_true, if_false, poolStep]
  rw [show (s.setTransfer q _).pool.step _ = some p from hpool]
  rfl

theorem post_fails {s₀ : Sys ρ ψ} {b : Submit (TaskArg ρ) Empty} {i : Nat} (h₀ : Ground s₀) (hb : b.batch = true)
    (h : Calling args s₀ q b s) (hc : (s.transfers q).caller = .posting i) : ∃ xs u,
    Along (memStep args) (CallerAct q) s xs ∧ exec (memStep args) s xs = some u ∧
      (u.transfers q).caller = .returned true false := by
  have hact : CallerAct q s (.caller q { ok := false }, {}) := ⟨rfl, fun hreg => by
    rw [hc] at hreg
    cases hreg⟩
  obtain ⟨u, hu, hfailing⟩ : ∃ u, step args s (.caller q { ok := false }) = some u ∧
      (u.transfers q).caller = .failing := by
    cases ht : (args q).type with
    | send => exact ⟨_, by simp only [step, callerStep, hc, ht]; rfl, by rw [setTransfer_self]; rfl⟩
    | recv => exact ⟨_, by simp only [step, callerStep, hc, ht]; rfl, by rw [setTransfer_self]; rfl⟩
  have hu' := (memStep_of_noMisuse (h.noMisuse h₀ hact)).trans hu
  have hact' : CallerAct q u (.caller q {}, {}) := ⟨rfl, fun _ => ⟨rfl, rfl⟩⟩
  let y := { u.transfers q with
    caller := .returned true false, sync := { (u.transfers q).sync with requestCompleted := true } }
  have hy : memStep args u (.caller q {}, {}) = some (u.setTransfer q y) := by
    rw [memStep_of_noMisuse ((h.step h₀ hb hact hu').noMisuse h₀ hact')]
    simp only [step, callerStep, hfailing, y]
  refine ⟨[(.caller q { ok := false }, {}), (.caller q {}, {})], u.setTransfer q y, ⟨hact, fun v hv => ?_⟩,
    exec_cons.2 ⟨u, hu', exec_cons.2 ⟨_, hy, rfl⟩⟩, by rw [setTransfer_self]⟩
  rw [← Option.some.inj (hu'.symm.trans hv)]
  exact ⟨hact', fun _ _ => trivial⟩

theorem call_fails {x : Pointers} {inited : Bool} {i : Fin 64} {as : List (Action ρ ψ)}
    (h : exec (step args) start as = some s) (hclean : Clean s) (hc : (s.transfers q).caller = .idle)
    (hv : (args q).validateInput x inited = true) (hsplit : (args q).Split) (hi : s.pool.pool.Chooses i) :
    ∃ s', FailedCall args x inited q s s' ∧ ∃ b, (args q).Submits q b ∧ Calling args s q b s' ∧
      (s'.transfers q).caller = .returned true false := by
  obtain ⟨hl, hup, hwait, hzero, hcaller, hwaiter⟩ := idle_request h hc
  have h₀ : Ground s := ⟨hup, hclean⟩
  obtain ⟨s₁, he, hreg⟩ := enter_submits hv hsplit hc hcaller
  obtain ⟨b, hb, hcall⟩ : ∃ b, (args q).Submits q b ∧ Calling args s q b s₁ := by
    rcases enter_cases h₀ hl hwait hzero hwaiter he with ⟨ok, hret, -⟩ | ⟨-, -, b, hb, hcall, -⟩
    · rw [hreg] at hret
      cases hret
    · exact ⟨b, hb, hcall⟩
  -- up to the posts every allocation succeeds
  have hreach : ∀ u, Calling args s q b u ∧ Calling.Submitting q u → (∃ j, (u.transfers q).caller = .posting j) ∨
      ∃ x u', CallerAct q u x ∧ memStep args u x = some u' ∧ (Calling args s q b u' ∧ Calling.Submitting q u') ∧
        Calling.toGo q b.args.length u' < Calling.toGo q b.args.length u := by
    rintro u ⟨hu, hsub⟩
    refine (hu.progress h₀ hb.batch hi hsub).imp_right ?_
    rintro ⟨x, u', hact, hs, hsub', hlt⟩
    exact ⟨x, u', hact, hs, ⟨hu.step h₀ hb.batch hact hs, hsub'⟩, hlt⟩
  obtain ⟨xs, u, hal, hu, ⟨hcall', -⟩, j, hj⟩ := exec_reach _ hreach ⟨hcall, .inl hreg⟩
  obtain ⟨ys, s', hal', hs', hret⟩ := post_fails h₀ hb.batch hcall' hj
  exact ⟨s', ⟨{}, s₁, xs ++ ys, he, hal.trans hu hal', exec_append.2 ⟨u, hu, hs'⟩, true, hret⟩, b, hb,
    hcall'.exec h₀ hb.batch hal' hs', hret⟩

/-- What a call that failed with a sync handle has left is undone by the wait if and only if the table held no
context of the key, or one that is bound to the worker that was chosen and counts other than 0. -/
theorem waited_iff {b : Submit (TaskArg ρ) Empty} {i : Fin 64} (hd : s.pool.pool.isDestroying = false)
    (hkey : ¬s.pool.pool.Outstanding (args q).key) (hb : (args q).Submits q b) (h : Calling args s q b s')
    (hc : (s'.transfers q).caller = .returned true false) (hi : s.pool.pool.Chooses i) : Recovered args q s s' ↔
      ∀ c, s.pool.pool.findReqContext (args q).key = some c → c.workerIdx = i ∧ c.pendingCount ≠ 0 := by
  have hleft := h.left
  rw [hc] at hleft
  obtain ⟨⟨ids, hput⟩, -⟩ := hleft
  obtain ⟨k, nodes, hk, hn, hw, hr⟩ := hput.placed_of_ids
  obtain rfl := hk.unique hi
  rw [← hb.requestId] at hkey ⊢
  -- the workers that were waited for had no task of the key
  have hctxs := fun n => Pool.awaited_ctxs hd (fun j hj => hkey ⟨j, .inr hj⟩) n
  have hfind : (s.pool.pool.awaited (k + 1)).findReqContext b.requestId = s.pool.pool.findReqContext b.requestId := by
    rw [Pool.findReqContext_eq, Pool.findReqContext_eq, hctxs]
  have hq : ∀ j, (s.pool.pool.awaited (k + 1)).queued j b.requestId = [] := fun j => by
    rw [Pool.queued_congr (Pool.awaited_queue hd (k + 1) j).1]
    exact Pool.queued_of_not_outstanding hkey j
  obtain ⟨c, hf, hidx⟩ := Pool.updateContext_workerIdx (s.pool.pool.awaited (k + 1)) (.caller q) b k
  have hc' : s'.pool.pool.findReqContext b.requestId = some c := by
    rw [← hf, Pool.findReqContext, Pool.findReqContext, hr]
  have hf' : s'.pool.pool.findReqContext (args q).key = some c := hb.requestId ▸ hc'
  constructor
  · rintro (⟨hret, -⟩ | ⟨-, hwait⟩)
    · rw [hc] at hret
      cases hret
    · obtain ⟨n, s'', he, hret, m, -, hrest⟩ := hwait fun _ => ({}, {})
      obtain ⟨hw'', hr''⟩ := wait_leaves h hc hf' he hret
      rw [← hb.requestId] at hw'' hr''
      intro c₀ hc₀
      refine Pool.bound_of_cut hq hn hw hr hc' ?_ ?_ (hfind.trans hc₀)
      · rw [← hw'', (hrest.queue k).1, (Pool.awaited_queue hd m k).1, (Pool.awaited_queue hd (k + 1) k).1]
      · rw [← Pool.ctxs_congr hr'', Pool.ctxs_congr hrest.reqHash, hctxs, hctxs]
  · intro hbound
    rw [← hfind] at hbound
    have hrest := Pool.cut_restored hq hn hw hr hc' hbound
    have hm : (s'.pool.pool.workers c.workerIdx).mutexFree = true := by
      rw [hidx fun c₀ hc₀ => (hbound c₀ hc₀).1, hw, Pool.putOn, Pool.setWorker_workers_self]
      exact Pool.awaited_mutexFree hd k
    refine .inr ⟨hc, fun ms => ?_⟩
    obtain ⟨n, s'', he, hret⟩ := wait_returns h hc hf' hm ms
    obtain ⟨hw'', hr''⟩ := wait_leaves h hc hf' he hret
    rw [← hb.requestId] at hw'' hr''
    exact ⟨n, s'', he, hret, k + 1, k.isLt, hrest.congr hw'' hr''⟩

theorem failing_call {x : Pointers} {inited : Bool} {i : Fin 64} {as : List (Action ρ ψ)}
    (h : exec (step args) start as = some s) (hclean : Clean s) (hc : (s.transfers q).caller = .idle)
    (hkey : ¬s.pool.pool.Outstanding (args q).key) (hv : (args q).validateInput x inited = true)
    (hsplit : (args q).Split) (hi : s.pool.pool.Chooses i) : ∃ s', FailedCall args x inited q s s' ∧
      (Recovered args q s s' ↔
        ∀ c, s.pool.pool.findReqContext (args q).key = some c → c.workerIdx = i ∧ c.pendingCount ≠ 0) := by
  obtain ⟨s', hfail, b, hb, hcall, hret⟩ := call_fails h hclean hc hv hsplit hi
  exact ⟨s', hfail, waited_iff (linked h).alive hkey hb hcall hret hi⟩

/-- A call that fails under a key that has no outstanding task is undone, by itself or by the wait, if and only if
the table holds no context of the key, or the first one is bound to the worker that is chosen and counts other than 0.
That is asked only of a call that comes to the submission and has a worker to choose. No freed memory has been used
before, and none of the workers that the selection comes to uses any. -/
theorem failed_recovered_iff {xs : List (Action ρ ψ × Found ρ ψ)} (h : exec (memStep args) start xs = some s)
    (hn : Along (memStep args) NoMisuse start xs) (hclean : Clean s) (hc : (s.transfers q).caller = .idle)
    (hkey : ¬s.pool.pool.Outstanding (args q).key) (x : Pointers) (inited : Bool) :
    (∀ s', FailedCall args x inited q s s' → Recovered args q s s') ↔
      ((args q).validateInput x inited = true → (args q).Split → ∀ i, s.pool.pool.Chooses i →
        ∀ c, s.pool.pool.findReqContext (args q).key = some c → c.workerIdx = i ∧ c.pendingCount ≠ 0) := by
  replace h := exec_memStep h hn
  constructor
  · intro hall hv hsplit i hi
    obtain ⟨s', hfail, hiff⟩ := failing_call h hclean hc hkey hv hsplit hi
    exact hiff.1 (hall s' hfail)
  · rintro hcond s' ⟨o, s₁, ys, he, hal, hs, handle, hret⟩
    obtain ⟨hl, hup, hwait, hzero, hcaller, hwaiter⟩ := idle_request h hc
    have h₀ : Ground s := ⟨hup, hclean⟩
    rcases enter_cases h₀ hl hwait hzero hwaiter he with ⟨ok, hret₁, hp⟩ | ⟨hv, hsplit, b, hb, hcall, -⟩
    · obtain rfl := returned_stays (by rw [hp]; exact hcaller) hret₁ hal hs
      obtain ⟨rfl, rfl⟩ : false = handle ∧ ok = false := by simpa [hret₁] using hret
      exact .inl ⟨hret, 0, Nat.zero_le 64, by rw [hp]; exact .of_eq rfl rfl⟩
    · have hcall' := hcall.exec h₀ hb.batch hal hs
      have hleft := hcall'.left
      rw [hret] at hleft
      cases handle with
      | false => exact .inl ⟨hret, hleft⟩
      | true =>
        obtain ⟨⟨ids, hput⟩, -⟩ := hleft
        obtain ⟨i, -, hi, -⟩ := hput.placed_of_ids
        exact (waited_iff hup.alive hkey hb hcall' hret hi).2 (hcond hv hsplit i hi)

/-- Four receives of a byte, but the first of two chunks; the keys are 5, but the third is 6. -/
def fourRecvs (q : Fin 4) : Request :=
  ⟨.recv, 0, 0, if q = 0 then 2097153 else 1, if q = 2 then 6 else 5, if q = 2 then 6 else 5⟩

/-- No pointer argument is NULL. -/
def allPointers : Pointers := ⟨true, true, true, true, true⟩

/-- The receive under key 6 is called, and its task is put on worker 0. -/
def otherKeyRun : List (Action (Fin 4) (Fin 1)) := .call 2 {} :: List.replicate 6 (.caller 2 {})

/-- Worker 0 takes that task. -/
def takenRun : List (Action (Fin 4) (Fin 1)) :=
  otherKeyRun ++ .wakeUpTask 0 ⟨.writeWithImm, (chunkUserData 6 ⟨0, 0, 1⟩ 0 true).userCtx, 0⟩ {} ::
    List.replicate 3 (.poller 0 {}) ++ [.worker 0 {}]

def otherTaken : Sys (Fin 4) (Fin 1) := last (memStep fourRecvs) start (quiet takenRun) (by decide +kernel)

/-- The fourth receive is called while worker 0 executes the task of the third. -/
theorem otherKey_recovered : (otherTaken.pool.pool.workers 0).mutexFree = false ∧
    (otherTaken.transfers 3).caller = .idle ∧
    ∀ s', FailedCall fourRecvs allPointers true 3 otherTaken s' → Recovered fourRecvs 3 otherTaken s' := by
  have hnone : otherTaken.pool.pool.findReqContext (fourRecvs 3).key = none := by decide +kernel
  have hcond : (fourRecvs 3).validateInput allPointers true = true → (fourRecvs 3).Split →
      ∀ i, otherTaken.pool.pool.Chooses i → ∀ c, otherTaken.pool.pool.findReqContext (fourRecvs 3).key = some c →
        c.workerIdx = i ∧ c.pendingCount ≠ 0 := fun _ _ _ _ _ hf => (Option.some_ne_none _ (hf.symm.trans hnone)).elim
  have hrun : exec (memStep fourRecvs) start (quiet takenRun) = some otherTaken := exec_last _
  have hidle : (otherTaken.transfers 3).caller = .idle := by decide +kernel
  have hclean : Clean otherTaken := ⟨.of_held (by decide +kernel) (by decide +kernel), by decide +kernel⟩
  exact ⟨by decide +kernel, hidle,
    (failed_recovered_iff hrun (by decide +kernel) hclean hidle (by decide +kernel) allPointers true).2 hcond⟩

/-- The first receive posts a chunk and fails to post the other, and is cancelled after a worker was told to run
it. The second is on that worker, and executed, before its context is inserted. The third is on that worker. -/
def staleContextRun : List (Action (Fin 4) (Fin 1)) :=
  .call 0 {} :: List.replicate 8 (.caller 0 {}) ++ [.wakeUpTask 0 oneByteNotify {}] ++
    List.replicate 3 (.poller 0 {}) ++ [.caller 0 { ok := false }, .caller 0 {}, .wait 0] ++
    List.replicate 8 (.waiter 0 {}) ++ .call 1 {} :: List.replicate 3 (.caller 1 {}) ++
    List.replicate 10 (.worker 0 {}) ++ List.replicate 4 (.caller 1 {}) ++ otherKeyRun

def staleContext : Sys (Fin 4) (Fin 1) := last (memStep fourRecvs) start (quiet staleContextRun) (by decide +kernel)

/-- Called next, the fourth receive is put on worker 1, but cancelled on worker 0. -/
theorem staleContext_unrecovered : exec (memStep fourRecvs) start (quiet staleContextRun) = some staleContext ∧
    Along (memStep fourRecvs) NoMisuse start (quiet staleContextRun) ∧ (staleContext.transfers 3).caller = .idle ∧
    ¬staleContext.pool.pool.Outstanding (fourRecvs 3).key ∧
    ∃ s', FailedCall fourRecvs allPointers true 3 staleContext s' ∧ ¬Recovered fourRecvs 3 staleContext s' := by
  have hrun : exec (memStep fourRecvs) start (quiet staleContextRun) = some staleContext := exec_last _
  have hsound : Along (memStep fourRecvs) NoMisuse start (quiet staleContextRun) := by decide +kernel
  have hidle : (staleContext.transfers 3).caller = .idle := by decide +kernel
  have hkey : ¬staleContext.pool.pool.Outstanding (fourRecvs 3).key := by decide +kernel
  have hvalid : (fourRecvs 3).validateInput allPointers true = true := by decide
  have hclean : Clean staleContext := ⟨.of_held (by decide +kernel) (by decide +kernel), by decide +kernel⟩
  have hsel : staleContext.pool.pool.Chooses 1 := ⟨by decide +kernel, by decide +kernel⟩
  have hf : staleContext.pool.pool.findReqContext (fourRecvs 3).key = some ⟨5, 0, 1, none, .caller 1⟩ := by
    decide +kernel
  obtain ⟨s', hfail, hiff⟩ :=
    failing_call (exec_memStep hrun hsound) hclean hidle hkey hvalid (fun h => nomatch h) hsel
  refine ⟨hrun, hsound, hidle, hkey, s', hfail, fun hrec => ?_⟩
  have hidx := (hiff.1 hrec _ hf).1
  exact absurd hidx (by decide)

end Sys
end OsTransport
