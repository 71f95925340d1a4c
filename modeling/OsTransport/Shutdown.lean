import OsTransport.Fifo
import OsTransport.PoolLife

/-!
# Shutting down

`shutdown_threads` sets `is_destroying` before it locks the mutex of a worker for the first time. So a worker
it has passed was signalled if it slept, and finds the flag set whenever it tests its loop condition again
(`Alert`): it never waits any more, and each of its sections brings it nearer to its end
(`Pool.workerStep_left`).
-/

namespace OsTransport

/-- How many sections a worker that is not to wait has at most before it. -/
def WorkerPc.left {τ α κ : Type} : WorkerPc τ α κ → Nat
  | .wait => 8
  | .func _ => 7
  | .complete _ => 6
  | .find _ => 5
  | .dec .. => 4
  | .batch .. => 3
  | .remove _ => 2
  | .finish _ => 1
  | .exited => 0

namespace Pool
variable {τ α κ : Type} [DecidableEq τ]

omit [DecidableEq τ] in
theorem park_of_destroying {p : Pool τ α κ} (hd : p.isDestroying = true) (i : Fin 64) :
    ((p.park i).workers i).pc = .exited := by
  unfold park
  rw [if_pos hd]
  simp

omit [DecidableEq τ] in
theorem park_exit {p : Pool τ α κ} {i : Fin 64} (h : ((p.park i).workers i).pc = .exited) :
    ((p.park i).workers i).state = .exit ∧ p.isDestroying = true := by
  unfold park at h ⊢
  split at h <;> simp_all

omit [DecidableEq τ] in
theorem loopHead_park (p : Pool τ α κ) (i : Fin 64) :
    (∃ q : Pool τ α κ, q.isDestroying = p.isDestroying ∧ p.loopHead i = q.park i) ∨
      ∃ task, ((p.loopHead i).workers i).pc = .func task := by
  unfold loopHead
  simp only
  split
  · exact .inl ⟨p, rfl, rfl⟩
  split
  · exact .inl ⟨p.setWorker i _, rfl, rfl⟩
  · rename_i task w hpop
    exact .inr ⟨task, by simp⟩

/-- A worker ends, and comes to wait, in `park` only. -/
theorem workerStep_park {p p' : Pool τ α κ} {i : Fin 64} {o : Oracle} (h : p.workerStep i o = some p') :
    (∃ q : Pool τ α κ, q.isDestroying = p.isDestroying ∧ p' = q.park i) ∨
      (p'.workers i).pc.left < (p.workers i).pc.left ∧ (p'.workers i).pc ≠ .exited := by
  have hto : ∀ {pc₀ pc : WorkerPc τ α κ} {q : Pool τ α κ}, (p.workers i).pc = pc₀ → pc.left < pc₀.left →
      pc ≠ .exited → ((q.setPc i pc).workers i).pc.left < (p.workers i).pc.left ∧
        ((q.setPc i pc).workers i).pc ≠ .exited := fun hpc hlt hne => by
    rw [setPc_workers_self, hpc]
    exact ⟨hlt, hne⟩
  cases workerStep_cases h with
  | park st pc hpc =>
    simp only [workerStep, hpc, Option.some.injEq] at h
    rcases loopHead_park p i with ⟨q, hq, hl⟩ | ⟨task, hl⟩
    · exact .inl ⟨q, hq, h.symm.trans hl⟩
    · rw [← h, hl, hpc]
      exact .inr ⟨by simp [WorkerPc.left], by simp⟩
  | take task rest hpc hr hpop =>
    refine .inr ⟨?_, by simp⟩
    rw [hpc]
    simp [WorkerPc.left]
  | finish task st pc hpc hpark =>
    simp only [workerStep, hpc, Option.some.injEq] at h
    exact .inl ⟨p.setWorker i _, rfl, h.symm⟩
  | dec task ctx c hpc hd =>
    refine .inr ?_
    by_cases hz : c.pendingCount = 0
    · rw [if_pos hz]
      exact hto hpc (by simp [WorkerPc.left]) (by simp)
    · rw [if_neg hz]
      exact hto hpc (by simp [WorkerPc.left]) (by simp)
  | decDangling task ctx hpc hd =>
    refine .inr ?_
    cases o.zero
    · exact hto hpc (by simp [WorkerPc.left]) (by simp)
    · exact hto hpc (by simp [WorkerPc.left]) (by simp)
  | func task hpc => exact .inr (hto hpc (by simp [WorkerPc.left]) (by simp))
  | complete task cbs hpc => exact .inr (hto hpc (by simp [WorkerPc.left]) (by simp))
  | findSome task ctx hpc hf => exact .inr (hto hpc (by simp [WorkerPc.left]) (by simp))
  | findNone task hpc hf => exact .inr (hto hpc (by simp [WorkerPc.left]) (by simp))
  | batch task cb cbs hpc => exact .inr (hto hpc (by simp [WorkerPc.left]) (by simp))
  | remove task hpc => exact .inr (hto hpc (by simp [WorkerPc.left]) (by simp))

theorem workerStep_isSome_iff (p : Pool τ α κ) (i : Fin 64) (o : Oracle) :
    (p.workerStep i o).isSome = true ↔ 0 < (p.workers i).pc.left := by
  unfold workerStep
  split
  case h_5 hpc =>
    simp only [hpc, WorkerPc.left]
    split <;> split <;> simp
  all_goals simp_all [WorkerPc.left]
  split <;> simp

/-- While the pool is being destroyed, a worker comes nearer to its end with every section. -/
theorem workerStep_left {p p' : Pool τ α κ} {i : Fin 64} {o : Oracle} (hd : p.isDestroying = true)
    (h : p.workerStep i o = some p') : (p'.workers i).pc.left < (p.workers i).pc.left := by
  rcases workerStep_park h with ⟨q, hq, rfl⟩ | ⟨hlt, -⟩
  · rw [park_of_destroying (hq.trans hd)]
    exact (workerStep_isSome_iff p i o).1 (by rw [h]; rfl)
  · exact hlt

theorem workerStep_exit {p p' : Pool τ α κ} {i : Fin 64} {o : Oracle} (h : p.workerStep i o = some p')
    (hpc : (p'.workers i).pc = .exited) : (p'.workers i).state = .exit ∧ p.isDestroying = true := by
  rcases workerStep_park h with ⟨q, hq, rfl⟩ | ⟨-, hne⟩
  · rw [← hq]
    exact park_exit hpc
  · exact absurd hpc hne

end Pool

namespace OwnerPc

/-- `is_destroying` is set. -/
def stopping : OwnerPc → Bool
  | .signal _ | .join _ | .destroyed => true
  | _ => false

/-- `shutdown_threads` has signalled worker `w`. -/
def Passed (w : Fin 64) : OwnerPc → Prop
  | .signal i => w < i
  | .join _ | .destroyed => True
  | _ => False

/-- `pthread_join` of worker `w` has returned, or was not needed. -/
def Joined (w : Fin 64) : OwnerPc → Prop
  | .join i => w < i
  | .destroyed => True
  | _ => False

/-- How many worker threads were created by now, until `thread_pool_init` has returned. -/
def workers : OwnerPc → Option Nat
  | .create i => some i
  | .await i _ => some (i + 1)
  | .made => some 64
  | _ => none

theorem Passed.stopping {w : Fin 64} {pc : OwnerPc} (h : pc.Passed w) : pc.stopping = true := by
  cases pc <;> first | rfl | exact h.elim

end OwnerPc

theorem nextWorker_eq (i : Fin 64) : (∃ j : Fin 64, nextWorker i = some j ∧ j.val = i.val + 1) ∨
    nextWorker i = none ∧ i.val = 63 := by
  unfold nextWorker
  split
  · exact .inl ⟨_, rfl, rfl⟩
  · exact .inr ⟨rfl, by omega⟩

namespace Life
open Lts
variable {τ α κ : Type} [DecidableEq τ] {s s' : Life τ α κ}

/-- What holds in every state of a pool's life. -/
structure Alert (s : Life τ α κ) : Prop where
  flag : s.sys.pool.isDestroying = s.owner.stopping
  /-- a worker that is executing a task, or has returned, is not in its wait loop -/
  busy : ∀ w, (s.sys.pool.workers w).pc ≠ .wait → s.nap w = .woken
  /-- a worker that was passed does not wait -/
  passed : ∀ w, s.owner.Passed w → s.nap w ≠ .sleepy ∧ s.nap w ≠ .asleep
  exited : ∀ w, (s.sys.pool.workers w).pc = .exited →
    (s.sys.pool.workers w).state = .exit ∧ s.sys.pool.isDestroying = true
  created : ∀ n, s.owner.workers = some n → ∀ w : Fin 64, s.nap w = .unborn ↔ n ≤ w
  running : s.sys.pool.isRunning = true → ∀ w, s.nap w ≠ .unborn
  joined : ∀ w, s.owner.Joined w → s.nap w = .unborn ∨ (s.sys.pool.workers w).pc = .exited

omit [DecidableEq τ] in
theorem signal_owner {i : Fin 64} {pick : Bool} (h : ∀ j b, s.owner ≠ .await j b) :
    (s.signal i pick).owner = s.owner := by
  rcases s.signal_cases i pick with hs | ⟨j, -, hs⟩ | ⟨j, hj, -⟩
  · rw [hs]
  · rw [hs]; rfl
  · exact absurd hj (h j false)

omit [DecidableEq τ] in
theorem signal_sys (s : Life τ α κ) (i : Fin 64) (pick : Bool) : (s.signal i pick).sys = s.sys := by
  rcases s.signal_cases i pick with hs | ⟨j, -, hs⟩ | ⟨j, -, hs⟩ <;> rw [hs]
  rfl

omit [DecidableEq τ] in
theorem begin_nap {i : Fin 64} {pick : Bool} (h : s.nap i = .born) : (s.begin i pick).nap i = .born := by
  unfold begin signal
  split
  · exact h
  split
  · rename_i hn
    exact absurd (h.symm.trans hn) (by decide)
  · exact h

namespace Alert

omit [DecidableEq τ] in
theorem start : Alert (calloced : Life τ α κ) where
  flag := rfl
  busy w h := absurd rfl h
  passed w h := h.elim
  exited w h := by cases h
  created n h w := by
    obtain rfl : 0 = n := Option.some.inj h
    exact iff_of_true rfl (Nat.zero_le _)
  running h := by cases h
  joined w h := h.elim

omit [DecidableEq τ] in
theorem congr (h : Alert s) {y : PoolSys τ α κ} (hrun : y.pool.isRunning = true → s.sys.pool.isRunning = true)
    (hd : y.pool.isDestroying = s.sys.pool.isDestroying)
    (hw : ∀ w, (y.pool.workers w).pc = (s.sys.pool.workers w).pc ∧
      ((s.sys.pool.workers w).pc = .exited → (y.pool.workers w).state = (s.sys.pool.workers w).state)) :
    Alert { s with sys := y } where
  flag := hd.trans h.flag
  busy w hpc := h.busy w ((hw w).1 ▸ hpc)
  passed := h.passed
  exited w hpc := by
    have hpc' := (hw w).1.symm.trans hpc
    obtain ⟨hexit, hstop⟩ := h.exited w hpc'
    exact ⟨((hw w).2 hpc').trans hexit, hd.trans hstop⟩
  created := h.created
  running hr := h.running (hrun hr)
  joined w hw' := (h.joined w hw').imp_right fun hpc => (hw w).1.trans hpc

omit [DecidableEq τ] in
theorem setNap (h : Alert s) {i : Fin 64} {n : Nap} (hi : s.nap i ≠ .unborn) (hn : n ≠ .unborn)
    (hb : (s.sys.pool.workers i).pc ≠ .wait → n = .woken)
    (hp : s.owner.Passed i → n ≠ .sleepy ∧ n ≠ .asleep) : Alert (s.setNap i n) := by
  have hself : (s.setNap i n).nap i = n := Function.update_self ..
  have hother : ∀ {w}, w ≠ i → (s.setNap i n).nap w = s.nap w := fun hw => Function.update_of_ne hw ..
  have hborn : ∀ w, (s.setNap i n).nap w = .unborn ↔ s.nap w = .unborn := fun w => by
    rcases eq_or_ne w i with rfl | hw
    · rw [hself]
      exact iff_of_false hn hi
    · rw [hother hw]
  refine ⟨h.flag, fun w hpc => ?_, fun w hw => ?_, h.exited, fun k hk w => (hborn w).trans (h.created k hk w),
    fun hr w => (hborn w).not.2 (h.running hr w), fun w hw => (h.joined w hw).imp_left (hborn w).2⟩
  · rcases eq_or_ne w i with rfl | hi
    · exact hself.trans (hb hpc)
    · exact (hother hi).trans (h.busy w hpc)
  · rcases eq_or_ne w i with rfl | hi
    · rw [hself]
      exact hp hw
    · rw [hother hi]
      exact h.passed w hw

omit [DecidableEq τ] in
theorem signalled (h : Alert s) (hs : Signalled s s') : Alert s' := by
  rcases hs with rfl | ⟨i, hi, rfl⟩ | ⟨i, hi, rfl⟩
  · exact h
  · exact h.setNap (by rw [hi]; decide) (by decide) (fun _ => rfl) fun _ => by decide
  · refine ⟨h.flag.trans (by rw [hi]; rfl), h.busy, fun w hw => hw.elim, h.exited, fun n hn w => ?_, h.running,
      fun w hw => hw.elim⟩
    exact h.created n (by rw [hi]; exact hn) w

theorem settle (h : Alert s) {i : Fin 64} {o : Oracle} {y : PoolSys τ α κ} (hn : s.nap i ≠ .unborn)
    (hy : s.sys.step (.worker i o) = some y) : Alert (s.settle i y) := by
  obtain ⟨hrunning, hdestroying⟩ := PoolSys.step_flags hy
  obtain ⟨p, hp, rfl⟩ := Option.map_eq_some_iff.1 hy
  have hother : ∀ {w}, w ≠ i → p.workers w = s.sys.pool.workers w := fun hw =>
    Pool.workers_of_ne (Pool.workerStep_cases hp) hw
  have hself : (s.settle i { s.sys with pool := p }).nap i = (p.workers i).pc.nap := Function.update_self ..
  have hnap : ∀ {w}, w ≠ i → (s.settle i { s.sys with pool := p }).nap w = s.nap w := fun hw =>
    Function.update_of_ne hw ..
  have hborn : ∀ w, (s.settle i { s.sys with pool := p }).nap w = .unborn ↔ s.nap w = .unborn := fun w => by
    rcases eq_or_ne w i with rfl | hi
    · rw [hself]
      refine iff_of_false ?_ hn
      cases (p.workers w).pc <;> simp [WorkerPc.nap]
    · rw [hnap hi]
  refine ⟨hdestroying.trans h.flag, fun w hpc => ?_, fun w hw => ?_, fun w hpc => ?_,
    fun k hk w => (hborn w).trans (h.created k hk w),
    fun hr w => (hborn w).not.2 (h.running (hrunning.symm.trans hr) w), fun w hw => ?_⟩
  · change (p.workers w).pc ≠ .wait at hpc
    rcases eq_or_ne w i with rfl | hi
    · rw [hself]
      generalize (p.workers w).pc = pc at hpc
      cases pc <;> first | rfl | exact absurd rfl hpc
    · rw [hnap hi]
      rw [hother hi] at hpc
      exact h.busy w hpc
  · rcases eq_or_ne w i with rfl | hi
    · -- the flag is set, so the worker does not come to wait
      have hlt := Pool.workerStep_left (h.flag.trans hw.stopping) hp
      rw [hself]
      generalize (p.workers w).pc = pc at hlt
      cases pc with
      | wait =>
        have : (s.sys.pool.workers w).pc.left ≤ 8 := by
          cases (s.sys.pool.workers w).pc <;> simp [WorkerPc.left]
        change 8 < _ at hlt
        omega
      | _ => exact ⟨by simp [WorkerPc.nap], by simp [WorkerPc.nap]⟩
    · rw [hnap hi]
      exact h.passed w hw
  · change (p.workers w).pc = .exited at hpc
    show (p.workers w).state = .exit ∧ p.isDestroying = true
    rw [show p.isDestroying = s.sys.pool.isDestroying from hdestroying]
    rcases eq_or_ne w i with rfl | hi
    · exact Pool.workerStep_exit hp hpc
    · rw [hother hi] at hpc ⊢
      exact h.exited w hpc
  · rcases eq_or_ne w i with rfl | hi
    · rcases h.joined w hw with hw | hw
      · exact absurd hw hn
      · have hpos := (Pool.workerStep_isSome_iff s.sys.pool w o).1 (by rw [hp]; rfl)
        rw [hw] at hpos
        cases hpos
    · rcases h.joined w hw with hw | hw
      · exact .inl ((hnap hi).trans hw)
      · exact .inr ((congrArg _ (hother hi)).trans hw)

omit [DecidableEq τ] in
theorem owner (h : Alert s) {w : OwnerPc} (hf : w.stopping = s.owner.stopping)
    (hp : ∀ i, w.Passed i → s.owner.Passed i ∨ s.nap i ≠ .sleepy ∧ s.nap i ≠ .asleep)
    (hc : ∀ n, w.workers = some n → s.owner.workers = some n)
    (hj : ∀ i, w.Joined i → s.owner.Joined i ∨ s.nap i = .unborn ∨ (s.sys.pool.workers i).pc = .exited) :
    Alert { s with owner := w } where
  flag := h.flag.trans hf.symm
  busy := h.busy
  passed i hi := (hp i hi).elim (h.passed i) id
  exited := h.exited
  created n hn := h.created n (hc n hn)
  running := h.running
  joined i hi := (hj i hi).elim (h.joined i) id

omit [DecidableEq τ] in
theorem create (h : Alert s) {i : Fin 64} (ho : s.owner = .create i) :
    Alert { s.setNap i .born with owner := .await i false } := by
  have hnap := h.created i (by rw [ho]; rfl)
  have hi : s.nap i = .unborn := (hnap i).2 (Nat.le_refl _)
  have hself : (s.setNap i .born).nap i = .born := Function.update_self ..
  have hother : ∀ {w}, w ≠ i → (s.setNap i .born).nap w = s.nap w := fun hw => Function.update_of_ne hw ..
  refine ⟨h.flag.trans (by rw [ho]; rfl), fun w hpc => ?_, fun w hw => hw.elim, h.exited, fun n hn w => ?_,
    fun hr => absurd hi (h.running hr i), fun w hw => hw.elim⟩
  · rcases eq_or_ne w i with rfl | hw
    · have hwoken := h.busy w hpc
      rw [hi] at hwoken
      cases hwoken
    · exact (hother hw).trans (h.busy w hpc)
  · obtain rfl : i.val + 1 = n := Option.some.inj hn
    rcases eq_or_ne w i with rfl | hw
    · refine iff_of_false ?_ (by omega)
      show (s.setNap w .born).nap w ≠ .unborn
      rw [hself]
      decide
    · have hne : w.val ≠ i.val := fun e => hw (Fin.ext e)
      show (s.setNap i .born).nap w = .unborn ↔ _
      rw [hother hw, hnap w]
      omega

omit [DecidableEq τ] in
theorem createLost (h : Alert s) {i : Fin 64} (ho : s.owner = .create i) :
    Alert { s.setNap i .lost with owner := .setFlag } := by
  have hnap := h.created i (by rw [ho]; rfl)
  have hi : s.nap i = .unborn := (hnap i).2 (Nat.le_refl _)
  refine ⟨h.flag.trans (by rw [ho]; rfl), fun w hpc => ?_, fun w hw => hw.elim, h.exited, fun n hn w => (by cases hn),
    fun hr => absurd hi (h.running hr i), fun w hw => hw.elim⟩
  have hwoken := h.busy w hpc
  rcases eq_or_ne w i with rfl | hw
  · rw [hi] at hwoken
    cases hwoken
  · exact (Function.update_of_ne hw ..).trans hwoken

omit [DecidableEq τ] in
theorem begin (h : Alert s) {i : Fin 64} (hn : s.nap i = .born) (pick : Bool) : Alert (s.begin i pick) := by
  refine (h.congr (y := { s.sys with pool := s.sys.pool.setWorker i { s.sys.pool.workers i with state := .idle } })
    id rfl fun w => ?_).signalled (signal_cases _ i pick)
  rcases eq_or_ne w i with rfl | hw
  · refine ⟨by simp, fun hpc => ?_⟩
    have hwoken := h.busy w (by rw [hpc]; simp)
    rw [hn] at hwoken
    cases hwoken
  · rw [Pool.setWorker_workers_ne _ hw]
    exact ⟨rfl, fun _ => rfl⟩

theorem step (h : Alert s) {a : LifeAct τ α κ} (hs : s.step a = some s') : Alert s' := by
  cases step_cases hs with
  | call t c o y hsh hy =>
    cases PoolSys.step_cases hy with
    | call t c o ht => exact h.congr id rfl fun w => ⟨rfl, fun _ => rfl⟩
  | thread t o pick y s' hsh hm hy hs =>
    obtain ⟨hrunning, hdestroying⟩ := PoolSys.step_flags hy
    cases PoolSys.step_cases hy with
    | thread t o p pc hp =>
      exact (h.congr hrunning.symm.trans hdestroying fun w =>
        ⟨(Pool.threadStep_worker hp w).1, fun _ => (Pool.threadStep_worker hp w).2⟩).signalled hs
  | sleep i o pick hn =>
    refine h.setNap (by rw [hn]; decide) (by decide) (fun hpc => ?_) fun hp => ?_
    · rw [h.busy i hpc] at hn
      cases hn
    · exact absurd hn (h.passed i hp).1
  | begin i o pick y hn hm hy =>
    refine (h.begin hn pick).settle ?_ hy
    rw [begin_nap hn]
    decide
  | turn i o pick y hn hy => exact h.settle (by rw [hn]; decide) hy
  | spurious i pick s' hs => exact h.signalled hs
  | start ho =>
    have hborn : ∀ w, s.nap w ≠ .unborn := fun w hw => by
      have := (h.created 64 (by rw [ho]; rfl) w).1 hw
      omega
    exact ⟨h.flag, h.busy, h.passed, h.exited, h.created, fun _ => hborn, h.joined⟩
  | destroy ho =>
    exact h.owner (by rw [ho]; rfl) (fun _ hp => hp.elim) (fun _ hc => by cases hc) fun _ hj => hj.elim
  | create i o pick ho => exact h.create ho
  | createFail i o pick ho =>
    exact h.owner (by rw [ho]; rfl) (fun _ hp => hp.elim) (fun _ hc => by cases hc) fun _ hj => hj.elim
  | createLost i o ho hok => exact h.createLost ho
  | await i o pick ho hi =>
    exact h.owner (by rw [ho]; rfl) (fun _ hp => hp.elim) (fun _ hc => by rw [ho]; exact hc) fun _ hj => hj.elim
  | created i o pick w ho hi hw =>
    rcases nextWorker_eq i with ⟨j, hj, hij⟩ | ⟨hj, hi'⟩ <;> rw [hj] at hw <;> subst hw
    · refine h.owner (by rw [ho]; rfl) (fun _ hp => hp.elim) (fun n hn => ?_) fun _ hj => hj.elim
      rw [ho, ← hn]
      exact congrArg some hij.symm
    · refine h.owner (by rw [ho]; rfl) (fun _ hp => hp.elim) (fun n hn => ?_) fun _ hj => hj.elim
      rw [ho, ← hn]
      exact congrArg (fun k => some (k + 1)) hi'
  | setFlag o pick ho =>
    have hexited : ∀ w, (s.sys.pool.workers w).pc = .exited → (s.sys.pool.workers w).state = .exit ∧ true = true :=
      fun w hpc => ⟨(h.exited w hpc).1, rfl⟩
    exact ⟨rfl, h.busy, fun w hw => absurd hw (Fin.not_lt_zero w), hexited, fun _ hn => (by cases hn),
      h.running, fun w hw => hw.elim⟩
  | signal i o pick w ho hm hw =>
    have hawait : ∀ j b, s.owner ≠ .await j b := fun j b => by rw [ho]; simp
    -- worker `i` was not about to block, and if it was blocked it is not any more
    have hi : (s.signal i pick).nap i ≠ .sleepy ∧ (s.signal i pick).nap i ≠ .asleep := by
      refine ⟨fun hn => ?_, s.signal_awake (hawait i) pick⟩
      rcases s.signal_cases i pick with hs | ⟨j, hj, hs⟩ | ⟨j, hj, hs⟩
      · rw [hs] at hn
        simp [mutexFree, hn] at hm
      · rw [hs] at hn
        rcases eq_or_ne i j with rfl | hij
        · simp [Life.setNap] at hn
        · simp [Life.setNap, Function.update_of_ne hij] at hn
          simp [mutexFree, hn] at hm
      · exact absurd hj (hawait j false)
    have hpassed : ∀ k, (k < i ∨ k = i) → (s.signal i pick).owner.Passed k ∨
        (s.signal i pick).nap k ≠ .sleepy ∧ (s.signal i pick).nap k ≠ .asleep := fun k hk => by
      rw [signal_owner hawait, ho]
      rcases hk with hk | rfl
      · exact .inl hk
      · exact .inr hi
    have hstop : (s.signal i pick).owner.stopping = true := by
      rw [signal_owner hawait, ho]; rfl
    rcases nextWorker_eq i with ⟨j, hj, hij⟩ | ⟨hj, hi'⟩ <;> rw [hj] at hw <;> subst hw
    · exact (h.signalled (s.signal_cases i pick)).owner hstop.symm
        (fun k hk => hpassed k (by simp only [OwnerPc.Passed, Fin.lt_def, Fin.ext_iff] at hk ⊢; omega))
        (fun _ hc => by cases hc) fun _ hj => hj.elim
    · exact (h.signalled (s.signal_cases i pick)).owner hstop.symm
        (fun k _ => hpassed k (by simp only [Fin.lt_def, Fin.ext_iff]; omega))
        (fun _ hc => by cases hc) fun k hk => absurd hk (Fin.not_lt_zero k)
  | join i o pick w ho hi hw =>
    have hend : s.nap i = .unborn ∨ (s.sys.pool.workers i).pc = .exited := hi.imp_right fun he => by
      cases hpc : (s.sys.pool.workers i).pc <;> simp [hpc, WorkerPc.hasExited] at he ⊢
    have hjoined : ∀ k, (k < i ∨ k = i) → s.owner.Joined k ∨ s.nap k = .unborn ∨
        (s.sys.pool.workers k).pc = .exited := fun k hk => by
      rcases hk with hk | rfl
      · exact .inl (by rw [ho]; exact hk)
      · exact .inr hend
    rcases nextWorker_eq i with ⟨j, hj, hij⟩ | ⟨hj, hi'⟩ <;> rw [hj] at hw <;> subst hw
    · exact h.owner (by rw [ho]; rfl) (fun k _ => .inl (by rw [ho]; trivial)) (fun _ hc => by cases hc)
        fun k hk => hjoined k (by simp only [OwnerPc.Joined, Fin.lt_def, Fin.ext_iff] at hk ⊢; omega)
    · exact h.owner (by rw [ho]; rfl) (fun k _ => .inl (by rw [ho]; trivial)) (fun _ hc => by cases hc)
        fun k _ => hjoined k (by simp only [Fin.lt_def, Fin.ext_iff]; omega)

end Alert

theorem alert {as : List (LifeAct τ α κ)} (h : exec Life.step calloced as = some s) : Alert s :=
  exec_inv' (I := Alert) (fun _ _ _ hi hs => hi.step hs) Alert.start h

/-! ### A thread that was not created -/

/-- A `pthread_create` that fails leaves `tid` 0. -/
def KeepsTid (s : Life τ α κ) : LifeAct τ α κ → Prop
  | .owner o pick => (∃ i, s.owner = .create i) → o.ok = true ∨ pick = true
  | _ => True

/-- No worker is `lost`. -/
def NoneLost (s : Life τ α κ) : Prop := ∀ w, s.nap w ≠ .lost

namespace NoneLost

omit [DecidableEq τ] in
theorem setNap (h : NoneLost s) {i : Fin 64} {n : Nap} (hn : n ≠ .lost) : NoneLost (s.setNap i n) := fun w => by
  show Function.update s.nap i n w ≠ .lost
  rcases eq_or_ne w i with rfl | hw
  · rw [Function.update_self]
    exact hn
  · rw [Function.update_of_ne hw]
    exact h w

omit [DecidableEq τ] in
theorem signalled (h : NoneLost s) (hs : Signalled s s') : NoneLost s' := by
  rcases hs with rfl | ⟨i, -, rfl⟩ | ⟨i, -, rfl⟩
  · exact h
  · exact h.setNap (by decide)
  · exact h

omit [DecidableEq τ] in
theorem settle (h : NoneLost s) (i : Fin 64) (y : PoolSys τ α κ) : NoneLost (s.settle i y) := by
  refine h.setNap (s := { s with sys := y }) (i := i) ?_
  cases (y.pool.workers i).pc <;> simp [WorkerPc.nap]

theorem step (h : NoneLost s) {a : LifeAct τ α κ} (hc : KeepsTid s a) (hs : s.step a = some s') : NoneLost s' := by
  cases step_cases hs with
  | thread t o pick y s' hsh hm hy hs => exact NoneLost.signalled (s := { s with sys := y }) h hs
  | sleep i o pick hn => exact h.setNap (by decide)
  | begin i o pick y hn hm hy =>
    have hbegin : NoneLost (s.begin i pick) := NoneLost.signalled
      (s := { s with sys.pool := s.sys.pool.setWorker i { s.sys.pool.workers i with state := .idle } })
      h (signal_cases _ i pick)
    exact hbegin.settle i y
  | turn i o pick y hn hy => exact h.settle i y
  | spurious i pick s' hs => exact h.signalled hs
  | create i o pick ho => exact h.setNap (i := i) (n := .born) (by decide)
  | createLost i o ho hok =>
    rcases hc ⟨i, ho⟩ with hk | hk
    · cases hok.symm.trans hk
    · cases hk
  | signal i o pick w ho hm hw =>
    have hsignal : NoneLost (s.signal i pick) := h.signalled (s.signal_cases i pick)
    exact hsignal
  | _ => exact h

theorem exec {as : List (LifeAct τ α κ)} (hc : Along Life.step KeepsTid calloced as)
    (h : Lts.exec Life.step calloced as = some s) : NoneLost s :=
  exec_inv (I := NoneLost) (fun _ _ _ hi hc hs => hi.step hc hs) (fun _ hn => by cases hn) hc h

end NoneLost

/-- The owner is to join worker `i`, which has no thread. -/
def JoinsLost (s : Life τ α κ) (i : Fin 64) : Prop := s.owner = .join i ∧ s.nap i = .lost

namespace JoinsLost
variable {i : Fin 64}

omit [DecidableEq τ] in
theorem signalled (h : JoinsLost s i) (hs : Signalled s s') : JoinsLost s' i := by
  obtain ⟨ho, hn⟩ := h
  rcases hs with rfl | ⟨j, hj, rfl⟩ | ⟨j, hj, rfl⟩
  · exact ⟨ho, hn⟩
  · have hne : i ≠ j := fun e => by
      rw [← e, hn] at hj
      cases hj
    exact ⟨ho, (Function.update_of_ne hne ..).trans hn⟩
  · cases ho.symm.trans hj

omit [DecidableEq τ] in
theorem setNap (h : JoinsLost s i) {j : Fin 64} {n m : Nap} (hj : s.nap j = m) (hm : m ≠ .lost) :
    JoinsLost (s.setNap j n) i := by
  have hne : i ≠ j := fun e => by
    rw [← e, h.2] at hj
    exact hm hj.symm
  exact ⟨h.1, (Function.update_of_ne hne ..).trans h.2⟩

/-- No step leads out of a join that has no thread to wait for. -/
theorem step (h : JoinsLost s i) (ha : Alert s) {a : LifeAct τ α κ} (hs : s.step a = some s') : JoinsLost s' i := by
  have howner : ∀ {w : OwnerPc}, s.owner = w → (∀ j, w ≠ .join j) → JoinsLost s' i := fun hw hj =>
    absurd (hw.symm.trans h.1) (hj i)
  cases step_cases hs with
  | call t c o y hsh hy => exact h
  | thread t o pick y s' hsh hm hy hs => exact JoinsLost.signalled (s := { s with sys := y }) h hs
  | sleep j o pick hj => exact h.setNap hj (by decide)
  | begin j o pick y hj hm hy =>
    have hbegin : JoinsLost (s.begin j pick) i := JoinsLost.signalled
      (s := { s with sys.pool := s.sys.pool.setWorker j { s.sys.pool.workers j with state := .idle } })
      h (signal_cases _ j pick)
    exact hbegin.setNap (begin_nap hj) (by decide)
  | turn j o pick y hj hy => exact h.setNap hj (by decide)
  | spurious j pick s' hs => exact h.signalled hs
  | join j o pick w ho hend =>
    obtain rfl : i = j := OwnerPc.join.inj (h.1.symm.trans ho)
    rcases hend with he | he
    · cases h.2.symm.trans he
    · have hbusy := ha.busy i fun hw => by
        rw [hw] at he
        cases he
      cases h.2.symm.trans hbusy
  | start ho => exact howner ho (by simp)
  | destroy ho => exact howner ho (by simp)
  | create j o pick ho => exact howner ho (by simp)
  | createFail j o pick ho => exact howner ho (by simp)
  | createLost j o ho => exact howner ho (by simp)
  | await j o pick ho => exact howner ho (by simp)
  | created j o pick w ho => exact howner ho (by simp)
  | setFlag o pick ho => exact howner ho (by simp)
  | signal j o pick w ho => exact howner ho (by simp)

end JoinsLost

theorem joinsLost_exec {as bs : List (LifeAct τ α κ)} {i : Fin 64} (h : exec Life.step calloced as = some s)
    (hj : JoinsLost s i) (hs : exec Life.step s bs = some s') : JoinsLost s' i :=
  (exec_inv' (I := fun s => Alert s ∧ JoinsLost s i) (fun _ _ _ hi hs => ⟨hi.1.step hs, hi.2.step hi.1 hs⟩)
    ⟨alert h, hj⟩ hs).2

/-! ### A worker that was passed -/

/-- What `shutdown_threads` wants of worker `w`. -/
structure Roused (s : Life τ α κ) (w : Fin 64) : Prop where
  /-- only a `thread_pool_init` that fails leaves workers without a thread -/
  created : s.sys.pool.isRunning = true → s.nap w ≠ .unborn
  awake : s.nap w ≠ .asleep
  /-- the worker is about to test its loop condition, or executes a task, or has ended -/
  stage : s.nap w = .unborn ∨
    (s.sys.pool.workers w).pc = .wait ∧ (s.nap w = .born ∨ s.nap w = .woken) ∨
    (s.sys.pool.workers w).pc ≠ .wait ∧ (s.sys.pool.workers w).pc ≠ .exited ∨
    (s.sys.pool.workers w).pc = .exited ∧ (s.sys.pool.workers w).state = .exit ∧ s.mutexFree w = true
  /-- when `thread_pool_destroy` joins it, it comes to its end on its own -/
  exits : s.nap w ≠ .unborn → ∃ n s', exec Life.step s (List.replicate n (.worker w {} true)) = some s' ∧
    (s'.sys.pool.workers w).pc = .exited
  /-- when it has ended it executes nothing, whatever the others do -/
  ended : (s.sys.pool.workers w).pc = .exited → ∀ as s', exec Life.step s as = some s' →
    (s'.sys.pool.workers w).pc = .exited ∧
      (s'.sys.pool.hist.taken.filter fun e => e.1 == w) = s.sys.pool.hist.taken.filter fun e => e.1 == w

theorem settle_of_passed {w : Fin 64} {o : Oracle} (hd : s.sys.pool.isDestroying = true)
    (hpc : (s.sys.pool.workers w).pc ≠ .exited) : ∃ y, s.sys.step (.worker w o) = some y ∧
      ((s.settle w y).sys.pool.workers w).pc.left < (s.sys.pool.workers w).pc.left ∧
      ((s.settle w y).nap w).hasThread = true := by
  have hpos : 0 < (s.sys.pool.workers w).pc.left := by
    cases hw : (s.sys.pool.workers w).pc <;> simp_all [WorkerPc.left]
  obtain ⟨p, hp⟩ := Option.isSome_iff_exists.1 ((Pool.workerStep_isSome_iff s.sys.pool w o).2 hpos)
  refine ⟨{ s.sys with pool := p }, by simp [PoolSys.step, hp], Pool.workerStep_left hd hp, ?_⟩
  show (Function.update s.nap w (p.workers w).pc.nap w).hasThread = true
  rw [Function.update_self]
  cases (p.workers w).pc <;> rfl

/-- A section of a worker that was passed. -/
theorem Alert.nearer (h : Alert s) {w : Fin 64} (hw : s.owner.Passed w) (hn : (s.nap w).hasThread = true)
    (hpc : (s.sys.pool.workers w).pc ≠ .exited) : ∃ s', s.step (.worker w {} true) = some s' ∧
      (s'.sys.pool.workers w).pc.left < (s.sys.pool.workers w).pc.left ∧ s'.owner.Passed w ∧
      (s'.nap w).hasThread = true := by
  have hd := h.flag.trans hw.stopping
  obtain ⟨hsleepy, hasleep⟩ := h.passed w hw
  cases hnap : s.nap w with
  | unborn | lost => rw [hnap] at hn; cases hn
  | sleepy => exact absurd hnap hsleepy
  | asleep => exact absurd hnap hasleep
  | woken =>
    obtain ⟨y, hy, hleft, hborn⟩ := settle_of_passed (o := {}) hd hpc
    exact ⟨s.settle w y, by simp [Life.step, workerStep, hnap, hy], hleft, hw, hborn⟩
  | born =>
    have hwait : (s.sys.pool.workers w).pc = .wait := by
      by_contra hne
      rw [h.busy w hne] at hnap
      cases hnap
    have hpool : (s.begin w true).sys.pool =
        s.sys.pool.setWorker w { s.sys.pool.workers w with state := .idle } := by
      rw [Life.begin, signal_sys]
    have hsame : ((s.begin w true).sys.pool.workers w).pc = (s.sys.pool.workers w).pc := by
      rw [hpool]; simp
    have howner : (s.begin w true).owner = s.owner :=
      signal_owner (s := { s with sys.pool := _ }) fun j b => by
        show s.owner ≠ _
        intro ho
        rw [ho] at hw
        exact hw
    have hfree : s.mutexFree w = true := by
      have hcreate : s.owner ≠ .create w := fun ho => by
        rw [ho] at hw
        exact hw
      simp [mutexFree, WorkerThread.mutexFree, hwait, hnap, hcreate]
    obtain ⟨y, hy, hleft, hborn⟩ := settle_of_passed (s := s.begin w true) (w := w) (o := {})
      (by rw [hpool]; exact hd) (by rw [hsame]; exact hpc)
    refine ⟨(s.begin w true).settle w y, by simp [Life.step, workerStep, hnap, hfree, hy], hsame ▸ hleft, ?_, hborn⟩
    show (s.begin w true).owner.Passed w
    rw [howner]; exact hw

theorem Alert.exits (h : Alert s) {w : Fin 64} (hw : s.owner.Passed w) (hn : (s.nap w).hasThread = true) :
    ∃ n s', exec Life.step s (List.replicate n (.worker w {} true)) = some s' ∧
      (s'.sys.pool.workers w).pc = .exited := by
  induction hk : (s.sys.pool.workers w).pc.left using Nat.strong_induction_on generalizing s with
  | _ k ih =>
    by_cases hpc : (s.sys.pool.workers w).pc = .exited
    · exact ⟨0, s, rfl, hpc⟩
    · obtain ⟨s₁, hs₁, hlt, hw₁, hn₁⟩ := h.nearer hw hn hpc
      obtain ⟨n, s', he, hend⟩ := ih _ (hk ▸ hlt) (h.step hs₁) hw₁ hn₁ rfl
      exact ⟨n + 1, s', exec_cons.2 ⟨s₁, hs₁, he⟩, hend⟩

/-- Worker `w` has ended and takes no task. -/
structure Ended (s₀ : Life τ α κ) (w : Fin 64) (s : Life τ α κ) : Prop where
  alert : Alert s
  exited : (s.sys.pool.workers w).pc = .exited
  taken : (s.sys.pool.hist.taken.filter fun e => e.1 == w) = s₀.sys.pool.hist.taken.filter fun e => e.1 == w

theorem Ended.step {s₀ : Life τ α κ} {w : Fin 64} {a : LifeAct τ α κ} (h : Ended s₀ w s)
    (hs : s.step a = some s') : Ended s₀ w s' := by
  have halert := h.alert.step hs
  have hnap : s.nap w = .woken := h.alert.busy w (by rw [h.exited]; simp)
  -- a section of a worker, from a pool that differs only in that worker
  have hsection : ∀ {i : Fin 64} {o : Oracle} {q : PoolSys τ α κ} {y : PoolSys τ α κ},
      q.step (.worker i o) = some y → (q.pool.workers w).pc = .exited →
      q.pool.hist.taken = s.sys.pool.hist.taken → (y.pool.workers w).pc = .exited ∧
        (y.pool.hist.taken.filter fun e => e.1 == w) = s₀.sys.pool.hist.taken.filter fun e => e.1 == w := by
    intro i o q y hy hq htaken
    obtain ⟨p, hp, rfl⟩ := Option.map_eq_some_iff.1 hy
    have hi : w ≠ i := fun e => by
      have hpos := (Pool.workerStep_isSome_iff q.pool i o).1 (by rw [hp]; rfl)
      rw [← e, hq] at hpos
      cases hpos
    have hstep := Pool.workerStep_cases hp
    refine ⟨(congrArg _ (Pool.workers_of_ne hstep hi)).trans hq, ?_⟩
    show (p.hist.taken.filter fun e => e.1 == w) = _
    rcases (Pool.workerStep_queue hstep).1 with hsame | ⟨task, -, hsame⟩ <;> rw [hsame, htaken]
    · exact h.taken
    · rw [List.filter_append, h.taken]
      simp [Ne.symm hi]
  cases step_cases hs with
  | call t c o y hsh hy =>
    cases PoolSys.step_cases hy with
    | call t c o ht => exact ⟨halert, h.exited, h.taken⟩
  | thread t o pick y s' hsh hm hy hs =>
    have hsys : s'.sys = y := by
      rcases hs with rfl | ⟨i, -, rfl⟩ | ⟨i, -, rfl⟩ <;> rfl
    cases PoolSys.step_cases hy with
    | thread t o p pc hp =>
      refine ⟨halert, ?_, ?_⟩ <;> rw [hsys]
      · exact (Pool.threadStep_worker hp w).1.trans h.exited
      · show (p.hist.taken.filter fun e => e.1 == w) = _
        rw [Pool.threadStep_taken hp]
        exact h.taken
  | begin i o pick y hn hm hy =>
    have hi : w ≠ i := fun e => by
      rw [← e, hnap] at hn
      cases hn
    have hsys : (s.begin i pick).sys.pool =
        s.sys.pool.setWorker i { s.sys.pool.workers i with state := .idle } := by
      rw [Life.begin, signal_sys]
    obtain ⟨hpc, htaken⟩ := hsection hy
      (by rw [hsys, Pool.setWorker_workers_ne _ hi]; exact h.exited) (by rw [hsys]; rfl)
    exact ⟨halert, hpc, htaken⟩
  | turn i o pick y hn hy =>
    obtain ⟨hpc, htaken⟩ := hsection hy h.exited rfl
    exact ⟨halert, hpc, htaken⟩
  | spurious i pick s' hs =>
    have hsys : s'.sys = s.sys := by
      rcases hs with rfl | ⟨i, -, rfl⟩ | ⟨i, -, rfl⟩ <;> rfl
    exact ⟨halert, by rw [hsys]; exact h.exited, by rw [hsys]; exact h.taken⟩
  | signal i o pick k ho hm hk =>
    refine ⟨halert, ?_, ?_⟩
    · show ((s.signal i pick).sys.pool.workers w).pc = .exited
      rw [signal_sys]; exact h.exited
    · show ((s.signal i pick).sys.pool.hist.taken.filter fun e => e.1 == w) = _
      rw [signal_sys]; exact h.taken
  | _ => exact ⟨halert, h.exited, h.taken⟩

/-- In every run in which each `pthread_create` that fails leaves `tid` 0, with calls and spurious wake-ups going on,
a worker that `shutdown_threads` has passed is not blocked, comes to its end on its own when it is joined, and
executes nothing after it. -/
theorem passed_roused {as : List (LifeAct τ α κ)} {w : Fin 64} (h : exec Life.step calloced as = some s)
    (hc : Along Life.step KeepsTid calloced as) (hw : s.owner.Passed w) : Roused s w := by
  have halert := alert h
  have hlost := NoneLost.exec hc h w
  obtain ⟨hsleepy, hasleep⟩ := halert.passed w hw
  have hexits : s.nap w ≠ .unborn → (s.nap w).hasThread = true := fun hn => by
    cases hnap : s.nap w <;> first | rfl | contradiction
  refine ⟨fun hr => halert.running hr w, hasleep, ?_, fun hn => halert.exits hw (hexits hn), fun hpc as' s' he => ?_⟩
  · by_cases hwait : (s.sys.pool.workers w).pc = .wait
    · cases hn : s.nap w with
      | unborn => exact .inl rfl
      | lost => exact absurd hn hlost
      | sleepy => exact absurd hn hsleepy
      | asleep => exact absurd hn hasleep
      | born => exact .inr (.inl ⟨hwait, .inl rfl⟩)
      | woken => exact .inr (.inl ⟨hwait, .inr rfl⟩)
    by_cases hend : (s.sys.pool.workers w).pc = .exited
    · refine .inr (.inr (.inr ⟨hend, (halert.exited w hend).1, ?_⟩))
      have hcreate : s.owner ≠ .create w := fun ho => by
        rw [ho] at hw
        exact hw
      simp [mutexFree, WorkerThread.mutexFree, hend, halert.busy w hwait, hcreate]
    · exact .inr (.inr (.inl ⟨hwait, hend⟩))
  · have hfin := exec_inv' (I := Ended s w) (fun _ _ _ hi hs => hi.step hs) ⟨halert, hpc, rfl⟩ he
    exact ⟨hfin.exited, hfin.taken⟩

/-- The pool is being destroyed and worker 0 was signalled. -/
def firstPassed : Life (Fin 2) Unit Unit :=
  last Life.step running [.destroy, .owner {} true, .owner {} true] (by decide +kernel)

theorem firstPassed_roused : Roused firstPassed 0 := by
  have howner : firstPassed.owner = .signal 1 := by decide +kernel
  have hacts : ∀ a ∈ (startRun ++ [.destroy, .owner {} true, .owner {} true] : List (LifeAct (Fin 2) Unit Unit)),
      (match a with | .owner _ pick => pick | _ => true) = true := by
    decide +kernel
  refine passed_roused (exec_append.2 ⟨running, startRun_exec, exec_last _⟩) ?_ ?_
  · refine (Along.of_forall hacts).mono fun s a ha => ?_
    cases a with
    | owner o pick => exact fun _ => .inr ha
    | _ => trivial
  · rw [howner]
    exact Fin.zero_lt_one

/-- The first `pthread_create` fails and leaves something in `tid`; `thread_pool_destroy` comes to its joins. -/
def lostEnd : Life (Fin 2) Unit Unit :=
  last Life.step calloced (.owner { ok := false } false :: List.replicate 65 (.owner {} true)) (by decide +kernel)

/-- The join of worker 0 is next, and there is no thread that could come to its end. -/
theorem lostEnd_joined : lostEnd.owner = .join 0 ∧ lostEnd.nap 0 = .lost ∧
    (∀ o pick, lostEnd.step (.owner o pick) = none) ∧ lostEnd.owner.Passed 0 ∧ ¬ Roused lostEnd 0 := by
  have howner : lostEnd.owner = .join 0 := by decide +kernel
  have hnap : lostEnd.nap 0 = .lost := by decide +kernel
  have hpc : (lostEnd.sys.pool.workers 0).pc = .wait := by decide +kernel
  refine ⟨howner, hnap, fun o pick => ?_, by rw [howner]; trivial, fun h => ?_⟩
  · simp [Life.step, ownerStep, howner, hnap, hpc, WorkerPc.hasExited]
  · rcases h.stage with hn | ⟨-, hn | hn⟩ | ⟨hne, -⟩ | ⟨hend, -⟩
    · cases hnap.symm.trans hn
    · cases hnap.symm.trans hn
    · cases hnap.symm.trans hn
    · exact hne hpc
    · cases hpc.symm.trans hend

end Life
end OsTransport
