import OsTransport.Lib.Holders
import OsTransport.Fifo

/-!
# Wake-ups and the `pending_req` slot

`thread_pool_wake_up_worker_by_req_id` hands a wake-up to the worker through the single slot
`pending_req`. `WakeInv` accounts for every call that has returned 0: its task was taken by the
worker, or its wake-up still stands in the slot, or it was lost, that is overwritten in the slot by a
later call before the worker had its mutex again, or stored for another worker. So the calls get their
tasks executed exactly in the runs without a losing step (`wakeUp_executed_iff`).
-/

namespace OsTransport

namespace WorkerPc
variable {τ α κ : Type}

/-- 1 while the function of a task runs. -/
def running : WorkerPc τ α κ → Nat
  | .func _ => 1
  | _ => 0

end WorkerPc

namespace Pc
variable {τ α κ : Type}

/-- The call has returned 0. -/
def returnedZero : Pc τ α κ → Bool
  | .done (.int n) => n == 0
  | _ => false

/-- Inside a wake-up of `r`, or before or after it. -/
def wakes (r : UInt32) : Pc τ α κ → Prop
  | .idle | .done (.int _) => True
  | .wakeFind r' | .wakeRead r' _ | .wakeSet r' _ => r' = r
  | _ => False

end Pc

open Lts
namespace PoolSys

variable {τ α κ : Type} [DecidableEq τ]

/-- The calls `ts` have not been made. The context of `r` is bound to worker `w`, which waits with an
empty slot and holds at least one task of `r` per call and no other task. -/
structure Waking (s : PoolSys τ α κ) (r : UInt32) (w : Fin 64) (ts : List τ) : Prop where
  nonzero : r ≠ 0
  nodup : ts.Nodup
  calls : ∀ t ∈ ts, s.threads t = .idle
  alive : s.pool.isDestroying = false
  ctx : (s.pool.findReqContext r).map (·.workerIdx) = some w
  pc : (s.pool.workers w).pc = .wait
  slot : (s.pool.workers w).pendingReq = 0
  only : ∀ task ∈ (s.pool.workers w).queue, task.requestId = r
  enough : ts.length ≤ (s.pool.workers w).queue.length

/-- A step of one of the calls `ts`, each of them a wake-up of `r`, or of worker `w`. -/
def WakeAct (r : UInt32) (w : Fin 64) (ts : List τ) : Act τ α κ → Prop
  | .call t c _ => t ∈ ts ∧ c = .wakeUp r
  | .thread t _ => t ∈ ts
  | .worker i _ => i = w

instance [DecidableEq α] [DecidableEq κ] (r : UInt32) (w : Fin 64) (ts : List τ) (a : Act τ α κ) :
    Decidable (WakeAct r w ts a) :=
  match a with
  | .call t c _ => inferInstanceAs (Decidable (t ∈ ts ∧ c = .wakeUp r))
  | .thread t _ => inferInstanceAs (Decidable (t ∈ ts))
  | .worker i _ => inferInstanceAs (Decidable (i = w))

/-- The step stores a wake-up over one that `w` has not taken yet, or for another worker. -/
def loses (w : Fin 64) (s : PoolSys τ α κ) : Act τ α κ → Bool
  | .thread t _ =>
    match s.threads t with
    | .wakeSet _ i => i != w || (s.pool.workers w).pendingReq != 0
    | _ => false
  | _ => false

/-- All calls have returned 0 and the worker waits with `pending_req = 0`. -/
structure Settled (s : PoolSys τ α κ) (w : Fin 64) (ts : List τ) : Prop where
  returned : ∀ t ∈ ts, s.threads t = .done (.int 0)
  pc : (s.pool.workers w).pc = .wait
  slot : (s.pool.workers w).pendingReq = 0

/-- The tasks whose function has returned between two states of a run. -/
def executed (s s' : PoolSys τ α κ) : List (ThreadPoolTask τ α κ) :=
  s'.pool.hist.returned.drop s.pool.hist.returned.length

/-- Exactly `k` of the tasks queued on `w` in `s` have been executed when the run is in `s'`. -/
def ExecutedOf (k : Nat) (w : Fin 64) (s s' : PoolSys τ α κ) : Prop :=
  (executed s s').Sublist (s.pool.workers w).queue ∧ (executed s s').length = k

section
omit [DecidableEq τ]

/-- `e` tasks of the queue `q` that `w` had at the start have been taken, and `n` wake-ups are lost. -/
structure WakeInv (r : UInt32) (w : Fin 64) (ts : List τ) (q done : List (ThreadPoolTask τ α κ))
    (n e : Nat) (s : PoolSys τ α κ) : Prop where
  alive : s.pool.isDestroying = false
  queue : (s.pool.workers w).queue = q.drop e
  le : e ≤ q.length
  slot : (s.pool.workers w).pendingReq = 0 ∨ (s.pool.workers w).pendingReq = r
  pos : (s.pool.workers w).pc.running ≤ e
  returned : s.pool.hist.returned = done ++ q.take (e - (s.pool.workers w).pc.running)
  func : ∀ task, (s.pool.workers w).pc = .func task → q[e - 1]? = some task
  calls : ∀ t ∈ ts, (s.threads t).wakes r
  count : ts.countP (fun t => (s.threads t).returnedZero) =
    e + n + if (s.pool.workers w).pendingReq = r then 1 else 0

namespace WakeInv
variable {r : UInt32} {w : Fin 64} {ts : List τ} {q done : List (ThreadPoolTask τ α κ)} {n e : Nat}
  {s s' : PoolSys τ α κ}

theorem init (h : Waking s r w ts) :
    WakeInv r w ts (s.pool.workers w).queue s.pool.hist.returned 0 0 s where
  alive := h.alive
  queue := rfl
  le := Nat.zero_le _
  slot := .inl h.slot
  pos := by simp [h.pc, WorkerPc.running]
  returned := by simp
  func task ht := by simp [h.pc] at ht
  calls t ht := by rw [h.calls t ht]; trivial
  count := by
    have hz : ts.countP (fun t => (s.threads t).returnedZero) = 0 :=
      List.countP_eq_zero.2 fun t ht => by simp [h.calls t ht, Pc.returnedZero]
    simp [hz, h.slot, h.nonzero.symm]

theorem lt_of_slot (h : WakeInv r w ts q done n e s) (hlen : ts.length ≤ q.length)
    (hp : (s.pool.workers w).pendingReq = r) : e < q.length := by
  have h₁ := h.count
  have h₂ := List.countP_le_length (p := fun t => (s.threads t).returnedZero) (l := ts)
  rw [if_pos hp] at h₁
  omega

/-- A section of worker `w` that leaves its queue and its slot. -/
theorem advance (h : WakeInv r w ts q done n e s) {p : Pool τ α κ} (st : WorkerState)
    (pc : WorkerPc τ α κ) (hw : p.workers w = { s.pool.workers w with state := st, pc := pc })
    (hdes : p.isDestroying = s.pool.isDestroying) (hfunc : pc.running = 0)
    (hret : p.hist.returned = done ++ q.take e) : WakeInv r w ts q done n e { s with pool := p } where
  alive := hdes.trans h.alive
  queue := by simpa [hw] using h.queue
  le := h.le
  slot := by simpa [hw] using h.slot
  pos := by simp [hw, hfunc]
  returned := by simpa [hw, hfunc] using hret
  func task ht := by
    simp only [hw] at ht
    simp [ht, WorkerPc.running] at hfunc
  calls := h.calls
  count := by simpa [hw] using h.count

/-- Worker `w` takes its next task: the slot is emptied and the head of the queue, which is of `r`, is
popped. -/
theorem take (h : WakeInv r w ts q done n e s) (hr : r ≠ 0) (hq : ∀ task ∈ q, task.requestId = r)
    (hpc : (s.pool.workers w).pc = .wait) (hr' : (s.pool.workers w).pendingReq ≠ 0)
    {task : ThreadPoolTask τ α κ} {rest : List (ThreadPoolTask τ α κ)}
    (hpop : popFirst (fun t => t.requestId == (s.pool.workers w).pendingReq) (s.pool.workers w).queue =
      some (task, rest)) {p : Pool τ α κ} {size : UInt32}
    (hw : p.workers w =
      { state := .busy, queue := rest, queueSize := size, pendingReq := 0, pc := .func task })
    (hret : p.hist.returned = s.pool.hist.returned) (hdes : p.isDestroying = s.pool.isDestroying) :
    WakeInv r w ts q done n (e + 1) { s with pool := p } := by
  have hp : (s.pool.workers w).pendingReq = r := h.slot.resolve_left hr'
  have hcons : q.drop e = task :: rest := by
    rw [hp, h.queue] at hpop
    exact popFirst_of_all (fun y hy => by simpa using hq y (List.mem_of_mem_drop hy)) hpop
  have htask : q[e]? = some task := by rw [← List.head?_drop, hcons]; rfl
  have hcnt := h.count
  have hret' := h.returned
  simp only [hpc, hp, WorkerPc.running, ↓reduceIte, Nat.sub_zero] at hcnt hret'
  obtain ⟨hlt, -⟩ := List.getElem?_eq_some_iff.1 htask
  exact {
    alive := hdes.trans h.alive
    queue := by simp only [hw]; rw [← List.tail_drop, hcons]; rfl
    le := hlt
    slot := .inl (by simp [hw])
    pos := by simp [hw, WorkerPc.running]
    returned := by simpa [hw, hret, WorkerPc.running] using hret'
    func := fun task' ht => by simpa [hw, htask] using ht
    calls := h.calls
    count := by simpa [hw, hr.symm, Nat.add_right_comm] using hcnt }

end WakeInv
end

namespace WakeInv
variable {r : UInt32} {w : Fin 64} {ts : List τ} {q done : List (ThreadPoolTask τ α κ)} {n e : Nat}
  {s s' : PoolSys τ α κ}

/-- A section of worker `w`. Only taking a task moves `e`. -/
theorem worker (h : WakeInv r w ts q done n e s) (hr : r ≠ 0) (hq : ∀ task ∈ q, task.requestId = r)
    (hlen : ts.length ≤ q.length) {o : Oracle} {p : Pool τ α κ}
    (hs : Pool.WorkerStep s.pool w o p) : ∃ e', WakeInv r w ts q done n e' { s with pool := p } := by
  have hret := h.returned
  set st₀ := (s.pool.workers w).state with hst
  -- every section but the loop head and the return of the task function only moves the worker
  have hmove : ∀ {p : Pool τ α κ} (st : WorkerState) (pc : WorkerPc τ α κ),
      (s.pool.workers w).pc.running = 0 → pc.running = 0 →
      p.workers w = { s.pool.workers w with state := st, pc := pc } →
      p.isDestroying = s.pool.isDestroying → p.hist.returned = s.pool.hist.returned →
      ∃ e', WakeInv r w ts q done n e' { s with pool := p } := fun st pc h0 h0' hw hdes hr => by
    rw [h0] at hret
    exact ⟨e, h.advance st pc hw hdes h0' (hr.trans hret)⟩
  cases hs with
  | park st pc hpc hempty hpark =>
    obtain ⟨rfl, rfl⟩ : pc = .wait ∧ st = st₀ :=
      hpark.resolve_right fun hd => by rw [h.alive] at hd; exact absurd hd.2 (by simp)
    have h0 : (s.pool.workers w).pendingReq = 0 := h.slot.resolve_right fun hp => by
      rcases hempty with h0 | hnil
      · exact hr (hp.symm.trans h0)
      · have hlt := h.lt_of_slot hlen hp
        rw [hp, Pool.queued, h.queue, List.filter_eq_nil_iff] at hnil
        exact hnil _ (List.getElem_mem (l := q.drop e) (n := 0) (by simpa using Nat.sub_pos_of_lt hlt))
          (by simpa using hq _ (List.getElem_mem hlt))
    exact hmove st₀ .wait (by rw [hpc]; rfl) rfl (by simp [← h0, hst]) rfl rfl
  | take task rest hpc hr' hpop =>
    exact ⟨e + 1, h.take hr hq hpc hr' hpop (Pool.setWorker_workers_self ..) rfl rfl⟩
  | func task hpc =>
    have hf := h.func task hpc
    have hpos := h.pos
    refine ⟨e, h.advance st₀ (.complete task) (by simp [hst]) rfl rfl ?_⟩
    rw [hpc] at hret hpos
    obtain ⟨k, rfl⟩ : ∃ k, e = k + 1 := ⟨e - 1, (Nat.sub_add_cancel hpos).symm⟩
    simp only [WorkerPc.running, Nat.add_sub_cancel] at hf hret
    simp [hret, List.take_add_one, hf]
  | complete task cbs hpc =>
    exact hmove st₀ (.find task) (by rw [hpc]; rfl) rfl (by simp [hst]) rfl rfl
  | findSome task ctx hpc hf =>
    exact hmove st₀ (.dec task ctx.owner) (by rw [hpc]; rfl) rfl (by simp [hst]) rfl rfl
  | findNone task hpc hf =>
    exact hmove st₀ (.finish task) (by rw [hpc]; rfl) rfl (by simp [hst]) rfl rfl
  | dec task ctx c hpc hd =>
    refine hmove st₀
      (if c.pendingCount = 0 then .batch task c.batchCb else .finish task) (by rw [hpc]; rfl) ?_
      (by simp [hst]) rfl rfl
    split <;> rfl
  | decDangling task ctx hpc hd =>
    refine hmove st₀
      (if o.zero then .remove task else .finish task) (by rw [hpc]; rfl) ?_ (by simp [hst]) rfl rfl
    split <;> rfl
  | batch task cb cbs hpc =>
    exact hmove st₀ (.remove task) (by rw [hpc]; rfl) rfl (by simp [hst]) rfl rfl
  | remove task hpc =>
    exact hmove st₀ (.finish task) (by rw [hpc]; rfl) rfl (by simp [hst]) rfl rfl
  | finish task st pc hpc hpark =>
    obtain ⟨rfl, rfl⟩ : pc = .wait ∧ st = .idle :=
      hpark.resolve_right fun hd => by rw [h.alive] at hd; exact absurd hd.2 (by simp)
    exact hmove _ _ (by rw [hpc]; rfl) rfl (Pool.setWorker_workers_self ..) rfl rfl

theorem move (h : WakeInv r w ts q done n e s) {t : τ} (ht : t ∈ ts) (hnd : ts.Nodup) {pc : Pc τ α κ}
    (hold : (s.threads t).returnedZero = false) (hnew : pc.returnedZero = false) (hpc : pc.wakes r) :
    WakeInv r w ts q done n e (s.setThread t pc) where
  alive := h.alive
  queue := h.queue
  le := h.le
  slot := h.slot
  pos := h.pos
  returned := h.returned
  func := h.func
  calls u hu := by
    rw [setThread_threads]
    split
    · exact hpc
    · exact h.calls u hu
  count := by
    have := countP_update s.threads Pc.returnedZero hnd ht pc
    rw [hold, hnew] at this
    exact (Nat.add_right_cancel this).trans h.count

/-- A wake-up stored for worker `i`; it or the one it overwrites is lost, if any is. -/
theorem set (h : WakeInv r w ts q done n e s) {t : τ} (ht : t ∈ ts) (hnd : ts.Nodup) (hr : r ≠ 0)
    {i : Fin 64} (hpc : s.threads t = .wakeSet r i) {p : Pool τ α κ}
    (hw : p.workers w =
      if w = i then { s.pool.workers w with pendingReq := r } else s.pool.workers w)
    (hret : p.hist.returned = s.pool.hist.returned) (hdes : p.isDestroying = s.pool.isDestroying) :
    WakeInv r w ts q done (n + (i != w || (s.pool.workers w).pendingReq != 0).toNat) e
      ({ s with pool := p }.setThread t (.done (.int 0))) := by
  have hone : ts.countP (fun u => (({ s with pool := p }.setThread t (.done (.int 0))).threads
      u).returnedZero) = ts.countP (fun u => (s.threads u).returnedZero) + 1 := by
    have := countP_update s.threads Pc.returnedZero hnd ht (.done (.int 0))
    rw [hpc] at this
    exact this
  have hcalls : ∀ u ∈ ts, (({ s with pool := p }.setThread t (.done (.int 0))).threads u).wakes r :=
    fun u hu => by
      rw [setThread_threads]
      split
      · trivial
      · exact h.calls u hu
  by_cases hi : w = i
  · subst hi
    rw [if_pos rfl] at hw
    exact {
      alive := hdes.trans h.alive
      queue := by simpa [hw] using h.queue
      le := h.le
      slot := .inr (by simp [hw])
      pos := by simpa [hw] using h.pos
      returned := by simpa [hw, hret] using h.returned
      func := by simpa [hw] using h.func
      calls := hcalls
      count := by
        rw [hone, h.count, setThread_pool, hw]
        rcases h.slot with h0 | h0
        · simp [h0, hr.symm]
        · have hb : (r != 0) = true := bne_iff_ne.2 hr
          simp only [h0, hb, Bool.or_true, ↓reduceIte, Bool.toNat_true]
          omega }
  · rw [if_neg hi] at hw
    exact {
      alive := hdes.trans h.alive
      queue := by simpa [hw] using h.queue
      le := h.le
      slot := by simpa [hw] using h.slot
      pos := by simpa [hw] using h.pos
      returned := by simpa [hw, hret] using h.returned
      func := by simpa [hw] using h.func
      calls := hcalls
      count := by
        have hb : (i != w) = true := bne_iff_ne.2 (Ne.symm hi)
        rw [hone, h.count, setThread_pool, hw, hb, Bool.true_or, Bool.toNat_true]
        omega }

theorem step (h : ∃ e, WakeInv r w ts q done n e s) (hnd : ts.Nodup) (hr : r ≠ 0)
    (hq : ∀ task ∈ q, task.requestId = r) (hlen : ts.length ≤ q.length) {a : Act τ α κ}
    (ha : WakeAct r w ts a) (hs : s.step a = some s') :
    ∃ e, WakeInv r w ts q done (n + (loses w s a).toNat) e s' := by
  obtain ⟨e, h⟩ := h
  cases step_cases hs with
  | call t c o hidle =>
    obtain ⟨ht, rfl⟩ := ha
    exact ⟨e, h.move ht hnd (by rw [hidle]; rfl) rfl rfl⟩
  | worker i o p hp =>
    obtain rfl : i = w := ha
    exact h.worker hr hq hlen hp
  | thread t o p pc hp =>
    have hcall := h.calls t ha
    -- only the calls of `ts` move, and they are inside a wake-up
    generalize hpc : s.threads t = pc₀ at hp hcall
    simp only [loses, hpc]
    cases hp with
    | wakeFindSome r' ctx hf =>
      exact ⟨e, h.move ha hnd (by rw [hpc]; rfl) rfl hcall⟩
    | wakeFindNone r' hf => exact ⟨e, h.move ha hnd (by rw [hpc]; rfl) rfl trivial⟩
    | wakeRead r' ctx => exact ⟨e, h.move ha hnd (by rw [hpc]; rfl) rfl hcall⟩
    | wakeSet r' i hm =>
      obtain rfl : r' = r := hcall
      refine ⟨e, h.set ha hnd hr hpc ?_ rfl rfl⟩
      simp only [Pool.setWorker_workers]
      split
      · rename_i hi; subst hi; rfl
      · rfl
    | _ => exact hcall.elim

end WakeInv

/-- The run executes the first tasks of the queue, one for every call whose wake-up was not lost. -/
theorem wakeUp_executed {s s' : PoolSys τ α κ} {r : UInt32} {w : Fin 64} {ts : List τ}
    {as : List (Act τ α κ)} (h : Waking s r w ts) (has : ∀ a ∈ as, WakeAct r w ts a)
    (he : exec PoolSys.step s as = some s') (hs : Settled s' w ts) :
    ∃ e, executed s s' = (s.pool.workers w).queue.take e ∧ e ≤ (s.pool.workers w).queue.length ∧
      ts.length = e + tally PoolSys.step (loses w) s as := by
  obtain ⟨e, hinv⟩ := exec_inv_tally (P := loses w)
    (I := fun n s' => ∃ e, WakeInv r w ts (s.pool.workers w).queue s.pool.hist.returned n e s')
    (fun n u a u' hi ha (hst : PoolSys.step u a = some u') =>
      WakeInv.step hi h.nodup h.nonzero h.only h.enough ha hst)
    ⟨0, WakeInv.init h⟩ (Along.of_forall has) he
  refine ⟨e, ?_, hinv.le, ?_⟩
  · rw [executed, hinv.returned, hs.pc]
    simp [WorkerPc.running]
  · have hall : ts.countP (fun t => (s'.threads t).returnedZero) = ts.length :=
      List.countP_eq_length.2 fun t ht => by rw [hs.returned t ht]; rfl
    have := hinv.count
    rw [hall, hs.slot, if_neg h.nonzero.symm] at this
    omega

/-- The calls get exactly one task executed each if and only if no step of the run loses a wake-up. -/
theorem wakeUp_executed_iff {s s' : PoolSys τ α κ} {r : UInt32} {w : Fin 64} {ts : List τ}
    {as : List (Act τ α κ)} (h : Waking s r w ts) (has : ∀ a ∈ as, WakeAct r w ts a)
    (he : exec PoolSys.step s as = some s') (hs : Settled s' w ts) :
    ExecutedOf ts.length w s s' ↔ Along PoolSys.step (fun s a => loses w s a = false) s as := by
  obtain ⟨e, hex, hle, hlen⟩ := wakeUp_executed h has he hs
  rw [← tally_eq_zero he, ExecutedOf, hex, List.length_take_of_le hle]
  constructor
  · rintro ⟨-, rfl⟩
    omega
  · intro h0
    exact ⟨List.take_sublist .., by omega⟩

/-! ### Two wake-ups of a request of two tasks -/

/-- A started pool on which call 0 has submitted two tasks of request 7; worker 0 got them. -/
def twoQueued : PoolSys (Fin 3) Unit Unit :=
  last PoolSys.step start (.call 0 (.submitBatch twoTasks) {} ::
    List.replicate 6 (.thread 0 {})) (by decide +kernel)

theorem twoQueued_waking : Waking twoQueued 7 0 [1, 2] where
  nonzero := by decide
  nodup := by decide
  calls := by decide +kernel
  alive := by decide +kernel
  ctx := by decide +kernel
  pc := by decide +kernel
  slot := by decide +kernel
  only := by decide +kernel
  enough := by decide +kernel

/-- Call `t` wakes the request and returns. -/
def wakeCall (t : Fin 3) : List (Act (Fin 3) Unit Unit) :=
  [.call t (.wakeUp 7) {}, .thread t {}, .thread t {}, .thread t {}]

/-- Worker 0 takes its wake-up, executes a task to the end, and waits. -/
def workerTurn (sections : Nat) : List (Act (Fin 3) Unit Unit) :=
  List.replicate sections (.worker 0 {})

/-- Each wake-up is taken before the next call is made. -/
def pacedRun : List (Act (Fin 3) Unit Unit) :=
  wakeCall 1 ++ workerTurn 6 ++ wakeCall 2 ++ workerTurn 8

/-- Both calls return before the worker has its mutex again. -/
def burstRun : List (Act (Fin 3) Unit Unit) := wakeCall 1 ++ wakeCall 2 ++ workerTurn 6

theorem pacedRun_executed :
    ExecutedOf 2 0 twoQueued (last PoolSys.step twoQueued pacedRun (by decide +kernel)) :=
  (wakeUp_executed_iff twoQueued_waking (by decide +kernel) (exec_last _)
    ⟨by decide +kernel, by decide +kernel, by decide +kernel⟩).2
    ((tally_eq_zero (exec_last (by decide +kernel))).1 (by decide +kernel))

/-- Both calls return 0 and one task stays in the queue. -/
theorem burstRun_loses : Waking twoQueued 7 0 [1, 2] ∧ (∀ a ∈ burstRun, WakeAct 7 0 [1, 2] a) ∧
    ∃ s', exec PoolSys.step twoQueued burstRun = some s' ∧ Settled s' 0 [1, 2] ∧
      ¬ ExecutedOf 2 0 twoQueued s' :=
  ⟨twoQueued_waking, by decide +kernel, last PoolSys.step twoQueued burstRun (by decide +kernel),
    exec_last _, ⟨by decide +kernel, by decide +kernel, by decide +kernel⟩,
    fun h => absurd h.2 (by decide +kernel)⟩

end PoolSys
end OsTransport
