import OsTransport.WakeUp

/-!
# The balance of wake-ups

A wake-up that returns 0 has stored its id in the slot of a worker. From there a worker takes it together
with one task of the id, or it is lost: another wake-up is stored over it, or the worker finds no task of
the id in its queue. `wake_ledger` is the balance over a whole run, whatever else runs: no task is taken
without a wake-up of its own.
-/

namespace OsTransport

/-- Inside a wake-up of `r`. -/
def Pc.inWake {τ α κ : Type} (r : UInt32) : Pc τ α κ → Bool
  | .wakeFind r' | .wakeRead r' _ | .wakeSet r' _ => r' == r
  | _ => false

namespace Pool
variable {τ α κ : Type} (p : Pool τ α κ) (r : UInt32)

/-- The wake-ups of `r` that were stored. -/
def wakesOf : Nat := p.hist.woken.countP fun e => e.2 == r

/-- The tasks of `r` that workers have taken. -/
def takesOf : Nat := p.hist.taken.countP fun e => e.2.requestId == r

/-- The wake-ups of `r` that stand in a slot. -/
def slotsOf : Nat := holders (fun i => (p.workers i).pendingReq) r

/-- Every wake-up that was stored is accounted for, `n` of them as lost. -/
def Balanced (n : Nat) : Prop := p.wakesOf r = p.takesOf r + p.slotsOf r + n

variable {p r} {p' : Pool τ α κ} {n : Nat}

theorem Balanced.congr (h : p.Balanced r n) (hh : p'.hist.woken = p.hist.woken ∧ p'.hist.taken = p.hist.taken)
    (hs : ∀ i, (p'.workers i).pendingReq = (p.workers i).pendingReq) : p'.Balanced r n := by
  simp only [Balanced, wakesOf, takesOf, slotsOf, hh, hs]
  exact h

theorem slots_same {j : Fin 64} {w : WorkerThread τ α κ} (hw : p'.workers = Function.update p.workers j w)
    (hp : w.pendingReq = (p.workers j).pendingReq) (i : Fin 64) : (p'.workers i).pendingReq = (p.workers i).pendingReq := by
  rw [hw, Function.update_apply]
  split
  · rename_i hi
    rw [hp, hi]
  · rfl

theorem slotsOf_update {j : Fin 64} {w : WorkerThread τ α κ} (hw : p'.workers = Function.update p.workers j w) (r : UInt32) :
    p'.slotsOf r + (if (p.workers j).pendingReq = r then 1 else 0) =
      p.slotsOf r + if w.pendingReq = r then 1 else 0 := by
  have hslots : (fun i => (p'.workers i).pendingReq) = Function.update (fun i => (p.workers i).pendingReq) j w.pendingReq := by
    funext i
    rw [hw]
    exact Function.apply_update (fun _ (x : WorkerThread τ α κ) => x.pendingReq) p.workers j w i
  rw [slotsOf, hslots]
  exact holders_update _ r j _

theorem wakesOf_snoc (t : τ) (r' : UInt32) (hh : p'.hist.woken = p.hist.woken ++ [(t, r')]) (r : UInt32) :
    p'.wakesOf r = p.wakesOf r + if r' = r then 1 else 0 := by
  simp [wakesOf, hh, List.countP_append, List.countP_singleton]

theorem takesOf_snoc (j : Fin 64) (task : ThreadPoolTask τ α κ) (hh : p'.hist.taken = p.hist.taken ++ [(j, task)])
    (r : UInt32) : p'.takesOf r = p.takesOf r + if task.requestId = r then 1 else 0 := by
  simp [takesOf, hh, List.countP_append, List.countP_singleton]

theorem wakesOf_congr (hh : p'.hist.woken = p.hist.woken) : p'.wakesOf r = p.wakesOf r := by
  rw [wakesOf, wakesOf, hh]

theorem takesOf_congr (hh : p'.hist.taken = p.hist.taken) : p'.takesOf r = p.takesOf r := by
  rw [takesOf, takesOf, hh]

section
variable {j : Fin 64} {w : WorkerThread τ α κ}

theorem Balanced.clear (h : p.Balanced r n) (hr : r ≠ 0) (hw : p'.workers = Function.update p.workers j w)
    (hp : w.pendingReq = 0) (hW : p'.hist.woken = p.hist.woken) (hT : p'.hist.taken = p.hist.taken) :
    p'.Balanced r (n + if (p.workers j).pendingReq = r then 1 else 0) := by
  have hslots := slotsOf_update hw r
  rw [hp, if_neg hr.symm] at hslots
  rw [Balanced] at h ⊢
  rw [wakesOf_congr hW, takesOf_congr hT]
  omega

theorem Balanced.take (h : p.Balanced r n) (hr : r ≠ 0) {task : ThreadPoolTask τ α κ}
    (hid : task.requestId = (p.workers j).pendingReq) (hw : p'.workers = Function.update p.workers j w)
    (hp : w.pendingReq = 0) (hW : p'.hist.woken = p.hist.woken) (hT : p'.hist.taken = p.hist.taken ++ [(j, task)]) :
    p'.Balanced r n := by
  have hslots := slotsOf_update hw r
  have htakes := takesOf_snoc _ _ hT r
  rw [hp, if_neg hr.symm] at hslots
  rw [hid] at htakes
  rw [Balanced] at h ⊢
  rw [wakesOf_congr hW]
  omega

theorem Balanced.set (h : p.Balanced r n) {t : τ} {r' : UInt32} (hw : p'.workers = Function.update p.workers j w)
    (hp : w.pendingReq = r') (hW : p'.hist.woken = p.hist.woken ++ [(t, r')]) (hT : p'.hist.taken = p.hist.taken) :
    p'.Balanced r (n + if (p.workers j).pendingReq = r then 1 else 0) := by
  have hslots := slotsOf_update hw r
  have hwakes := wakesOf_snoc _ _ hW r
  rw [hp] at hslots
  rw [Balanced] at h ⊢
  rw [takesOf_congr hT]
  omega

end

/-! ### A section of a wake-up -/

section
variable [DecidableEq τ] {t : τ} {o : Oracle} {pc pc' : Pc τ α κ}

theorem threadStep_inWake (h : ThreadStep p t o pc p' pc') (hr : pc'.inWake r = true) : pc.inWake r = true := by
  cases h with
  | select b nodes i best minLoad hm =>
    rcases p.selectStep_cases b nodes i best minLoad with ⟨j, best', minLoad', h⟩ | ⟨w, h⟩ | h <;> rw [h] at hr
    · cases hr
    · unfold afterSelect at hr
      split at hr <;> cases hr
    · cases hr
  | create b worker nodes arg ha =>
    unfold afterCreate at hr
    split at hr
    · cases hr
    · split at hr <;> cases hr
  | wakeFindSome | wakeRead => exact hr
  | cancelQueue r' x i hm => split at hr <;> cases hr
  | _ => cases hr

theorem threadStep_wakes (h : ThreadStep p t o pc p' pc') (hpc : pc.wakes r) : pc' ≠ .idle ∧ pc'.wakes r := by
  cases h with
  | wakeFindSome | wakeRead => exact ⟨by simp, hpc⟩
  | wakeFindNone | wakeSet => exact ⟨by simp, trivial⟩
  | _ => exact hpc.elim

/-- A wake-up of `r` stores its id where it returns 0. -/
theorem wakesOf_threadStep (h : ThreadStep p t o pc p' pc') (hpc : pc.wakes r) :
    p'.wakesOf r = p.wakesOf r + pc'.returnedZero.toNat := by
  cases h with
  | wakeSet r' i hm =>
    obtain rfl : r' = r := hpc
    refine (wakesOf_snoc t r' rfl r').trans ?_
    rw [if_pos rfl]
    rfl
  | wakeFindSome | wakeRead | wakeFindNone => rfl
  | _ => exact hpc.elim

theorem wakesOf_threadStep_of_not (h : ThreadStep p t o pc p' pc') (hpc : pc.inWake r = false) :
    p'.wakesOf r = p.wakesOf r := by
  cases h with
  | wakeSet r' i hm =>
    refine (wakesOf_snoc t r' rfl r).trans ?_
    rw [if_neg (by simpa [Pc.inWake] using hpc)]
    rfl
  | cancelUpdate => split <;> rfl
  | cancelUpdateDangling => split <;> rfl
  | _ => rfl

end

end Pool

open Lts
namespace PoolSys
variable {τ α κ : Type}

/-- The call that wakes `r`. -/
def wakers (r : UInt32) : Act τ α κ → List τ
  | .call t (.wakeUp r') _ => if r' = r then [t] else []
  | _ => []

/-- The step loses a wake-up of `r`. -/
def wastes (r : UInt32) (s : PoolSys τ α κ) : Act τ α κ → Bool
  | .call .. => false
  | .thread t _ =>
    match s.threads t with
    | .wakeSet _ i => (s.pool.workers i).pendingReq == r
    | _ => false
  | .worker i _ =>
    match (s.pool.workers i).pc with
    | .wait => (s.pool.workers i).pendingReq == r && (s.pool.queued i r).isEmpty
    | _ => false

variable [DecidableEq τ] {s s' : PoolSys τ α κ} {r : UInt32} {n : Nat}

theorem wakes_balanced_worker (h : s.pool.Balanced r n) (hr : r ≠ 0) {i : Fin 64} {o : Oracle} {p : Pool τ α κ}
    (hs : Pool.WorkerStep s.pool i o p) : p.Balanced r (n + (wastes r s (.worker i o)).toNat) := by
  have hrest : (∀ j, (p.workers j).pendingReq = (s.pool.workers j).pendingReq) →
      p.hist.woken = s.pool.hist.woken ∧ p.hist.taken = s.pool.hist.taken → (s.pool.workers i).pc ≠ .wait →
      p.Balanced r (n + (wastes r s (.worker i o)).toNat) := by
    intro hslots hh hpc
    have hw : wastes r s (.worker i o) = false := by simp only [wastes]
    rw [hw]
    exact h.congr hh hslots
  cases hs with
  | park st pc hpc hq hpark =>
    have hw : (wastes r s (.worker i o)).toNat = if (s.pool.workers i).pendingReq = r then 1 else 0 := by
      simp only [wastes, hpc]
      split
      · rename_i hp
        rw [hp] at hq
        simp [hq.resolve_left hr, hp]
      · rename_i hp
        simp [hp]
    rw [hw]
    exact h.clear (j := i) hr rfl rfl rfl rfl
  | take task rest hpc hp hpop =>
    have hid : task.requestId = (s.pool.workers i).pendingReq := by
      have := popFirst_sat hpop
      exact beq_iff_eq.1 this
    have hw : wastes r s (.worker i o) = false := by
      simp only [wastes, hpc, Bool.and_eq_false_imp, beq_iff_eq]
      intro hpr
      rw [← hpr]
      -- the task that is taken was queued
      have hne : s.pool.queued i (s.pool.workers i).pendingReq ≠ [] := fun hnil => by
        rw [popFirst_eq_none.2 hnil] at hpop
        cases hpop
      simpa using hne
    rw [hw]
    exact h.take (j := i) hr hid rfl rfl rfl rfl
  | func task hpc => exact hrest (Pool.slots_same (j := i) rfl rfl) ⟨rfl, rfl⟩ (by rw [hpc]; simp)
  | complete task cbs hpc => exact hrest (Pool.slots_same (j := i) rfl rfl) ⟨rfl, rfl⟩ (by rw [hpc]; simp)
  | findSome task ctx hpc hf => exact hrest (Pool.slots_same (j := i) rfl rfl) ⟨rfl, rfl⟩ (by rw [hpc]; simp)
  | findNone task hpc hf => exact hrest (Pool.slots_same (j := i) rfl rfl) ⟨rfl, rfl⟩ (by rw [hpc]; simp)
  | dec task ctx c hpc hd => exact hrest (Pool.slots_same (j := i) rfl rfl) ⟨rfl, rfl⟩ (by rw [hpc]; simp)
  | decDangling task ctx hpc hd => exact hrest (Pool.slots_same (j := i) rfl rfl) ⟨rfl, rfl⟩ (by rw [hpc]; simp)
  | batch task cb cbs hpc => exact hrest (Pool.slots_same (j := i) rfl rfl) ⟨rfl, rfl⟩ (by rw [hpc]; simp)
  | remove task hpc => exact hrest (Pool.slots_same (j := i) rfl rfl) ⟨rfl, rfl⟩ (by rw [hpc]; simp)
  | finish task st pc hpc hpark => exact hrest (Pool.slots_same (j := i) rfl rfl) ⟨rfl, rfl⟩ (by rw [hpc]; simp)

theorem wakes_balanced_thread (h : s.pool.Balanced r n) {t : τ} {o : Oracle} {p : Pool τ α κ} {pc : Pc τ α κ}
    (hs : Pool.ThreadStep s.pool t o (s.threads t) p pc) : p.Balanced r (n + (wastes r s (.thread t o)).toNat) := by
  have hrest : (∀ j, (p.workers j).pendingReq = (s.pool.workers j).pendingReq) →
      p.hist.woken = s.pool.hist.woken ∧ p.hist.taken = s.pool.hist.taken → (∀ r' i, s.threads t ≠ .wakeSet r' i) →
      p.Balanced r (n + (wastes r s (.thread t o)).toNat) := by
    intro hslots hh hpc
    have hw : wastes r s (.thread t o) = false := by simp only [wastes]
    rw [hw]
    exact h.congr hh hslots
  generalize hpc : s.threads t = pc₀ at hs hrest
  cases hs with
  | wakeSet r' i hm =>
    have hw : (wastes r s (.thread t o)).toNat = if (s.pool.workers i).pendingReq = r then 1 else 0 := by
      simp only [wastes, hpc]
      split
      · rename_i hp
        simp [hp]
      · rename_i hp
        simp [hp]
    rw [hw]
    exact h.set (j := i) rfl rfl rfl rfl
  | attach b i nodes size hm hsize => exact hrest (Pool.slots_same (j := i) rfl rfl) ⟨rfl, rfl⟩ (by simp)
  | cancelQueue r' x i hm => exact hrest (Pool.slots_same (j := i) (by rfl) (by rfl)) ⟨rfl, rfl⟩ (by simp)
  | cancelUpdate =>
    refine hrest (fun i => ?_) ⟨?_, ?_⟩ (by simp)
    all_goals split <;> rfl
  | cancelUpdateDangling =>
    refine hrest (fun i => ?_) ⟨?_, ?_⟩ (by simp)
    all_goals split <;> rfl
  | _ => exact hrest (fun _ => rfl) ⟨rfl, rfl⟩ (by simp)

theorem wakes_balanced_step {a : Act τ α κ} (h : s.pool.Balanced r n) (hr : r ≠ 0) (hs : s.step a = some s') :
    s'.pool.Balanced r (n + (wastes r s a).toNat) := by
  cases step_cases hs with
  | call t c o ht => exact h
  | thread t o p pc hp => exact wakes_balanced_thread h hp
  | worker i o p hp => exact wakes_balanced_worker h hr hp

/-! ### The calls that wake -/

/-- `l` are the calls made to wake `r`. -/
structure Wakers (r : UInt32) (l : List τ) (s : PoolSys τ α κ) : Prop where
  nodup : l.Nodup
  called : ∀ t ∈ l, s.threads t ≠ .idle ∧ (s.threads t).wakes r
  only : ∀ t, (s.threads t).inWake r = true → t ∈ l
  count : s.pool.wakesOf r = l.countP fun t => (s.threads t).returnedZero

omit [DecidableEq τ] in
theorem wakers_start (r : UInt32) : Wakers r [] (start : PoolSys τ α κ) where
  nodup := List.nodup_nil
  called t ht := by cases ht
  only t ht := by cases ht
  count := rfl

namespace Wakers
variable {l : List τ}

omit [DecidableEq τ] in
theorem congr (h : Wakers r l s) (ht : s'.threads = s.threads) (hw : s'.pool.wakesOf r = s.pool.wakesOf r) :
    Wakers r l s' := by
  refine ⟨h.nodup, ?_, ?_, ?_⟩
  · rw [ht]
    exact h.called
  · rw [ht]
    exact h.only
  · rw [hw, ht]
    exact h.count

theorem frame (h : Wakers r l s) {t : τ} (ht : t ∉ l) {p : Pool τ α κ} {pc : Pc τ α κ} (hpc : pc.inWake r = false)
    (hw : p.wakesOf r = s.pool.wakesOf r) : Wakers r l ({ s with pool := p }.setThread t pc) := by
  have hsame : ∀ u ∈ l, ({ s with pool := p }.setThread t pc).threads u = s.threads u := by
    intro u hu
    rw [setThread_threads, if_neg]
    rintro rfl
    exact ht hu
  refine ⟨h.nodup, fun u hu => ?_, fun u hu => ?_, ?_⟩
  · rw [hsame u hu]
    exact h.called u hu
  · rw [setThread_threads] at hu
    split at hu
    · rw [hpc] at hu
      cases hu
    · exact h.only u hu
  · rw [setThread_pool, hw, h.count]
    exact List.countP_congr fun u hu => by rw [hsame u hu]

theorem step {a : Act τ α κ} (h : Wakers r l s) (hs : s.step a = some s') : Wakers r (l ++ wakers r a) s' := by
  cases step_cases hs with
  | worker i o p hp =>
    change Wakers r (l ++ []) _
    rw [List.append_nil]
    refine h.congr rfl ?_
    cases hp <;> rfl
  | call t c o ht =>
    have hnew : t ∉ l := fun hl => (h.called t hl).1 ht
    have hother : (enter s.pool o c).inWake r = false → wakers r (.call t c o) = [] →
        Wakers r (l ++ wakers r (.call t c o)) (s.setThread t (enter s.pool o c)) := by
      intro hpc hw
      rw [hw, List.append_nil]
      exact h.frame hnew hpc rfl
    cases c with
    | wakeUp r' =>
      by_cases hr : r' = r
      · subst hr
        rw [wakers, if_pos rfl]
        have hsame : ∀ u ∈ l, (s.setThread t (.wakeFind r')).threads u = s.threads u := by
          intro u hu
          rw [setThread_threads, if_neg]
          rintro rfl
          exact hnew hu
        have hself : (s.setThread t (.wakeFind r')).threads t = .wakeFind r' := by
          rw [setThread_threads, if_pos rfl]
        refine ⟨h.nodup.append (List.nodup_singleton t) (by simpa using hnew), fun u hu => ?_, fun u hu => ?_, ?_⟩
        · rcases List.mem_append.1 hu with hu | hu
          · exact (hsame u hu).symm ▸ h.called u hu
          · obtain rfl := List.mem_singleton.1 hu
            exact hself.symm ▸ ⟨by simp, rfl⟩
        · rcases eq_or_ne u t with rfl | hne
          · simp
          · refine List.mem_append_left _ (h.only u ?_)
            rwa [show (s.setThread t (enter s.pool o (.wakeUp r'))).threads u = s.threads u by
              rw [setThread_threads, if_neg hne]] at hu
        · have hzero : ((s.setThread t (.wakeFind r')).threads t).returnedZero = false := by
            rw [hself]
            rfl
          refine h.count.trans ?_
          change _ = (l ++ [t]).countP fun u => ((s.setThread t (.wakeFind r')).threads u).returnedZero
          rw [List.countP_append, List.countP_singleton, hzero]
          exact List.countP_congr fun u hu => by rw [hsame u hu]
      · exact hother (by simpa [enter, Pc.inWake] using hr) (if_neg hr)
    | submitTask r' arg cb =>
      refine hother ?_ rfl
      simp only [enter]
      split <;> rfl
    | submitBatch b =>
      refine hother ?_ rfl
      simp only [enter]
      split
      · rfl
      split
      · rfl
      split <;> rfl
    | cancel r' =>
      refine hother ?_ rfl
      simp only [enter]
      split <;> rfl
  | thread t o p pc hp =>
    change Wakers r (l ++ []) _
    rw [List.append_nil]
    by_cases ht : t ∈ l
    · obtain ⟨-, hpc⟩ := h.called t ht
      have hzero : (s.threads t).returnedZero = false := by
        generalize s.threads t = pc₀ at hp
        cases hp <;> rfl
      have hcount := countP_update s.threads Pc.returnedZero h.nodup ht pc
      refine ⟨h.nodup, fun u hu => ?_, fun u hu => ?_, ?_⟩
      · rw [setThread_threads]
        split
        · exact Pool.threadStep_wakes hp hpc
        · exact h.called u hu
      · rw [setThread_threads] at hu
        split at hu
        · rename_i he
          exact he ▸ ht
        · exact h.only u hu
      · rw [setThread_pool, Pool.wakesOf_threadStep hp hpc, h.count]
        rw [hzero] at hcount
        exact hcount.symm
    · have hnot : (s.threads t).inWake r = false := by
        by_contra hin
        exact ht (h.only t (by simpa using hin))
      refine h.frame ht ?_ (Pool.wakesOf_threadStep_of_not hp hnot)
      by_contra hin
      rw [Pool.threadStep_inWake hp (by simpa using hin)] at hnot
      cases hnot

end Wakers

theorem callers {as : List (Act τ α κ)} (h : exec PoolSys.step start as = some s) (r : UInt32) :
    Wakers r (as.flatMap (wakers r)) s :=
  exec_inv_acts (I := fun as s => Wakers r (as.flatMap (wakers r)) s) (l := []) (C := fun _ _ => True)
    (fun l s a s' hi _ hs => by simpa using hi.step hs) (wakers_start r) (Along.of_forall fun _ _ => trivial) h

omit [DecidableEq τ] in
theorem wakes_balanced_start (hr : r ≠ 0) : (start : PoolSys τ α κ).pool.Balanced r 0 := by
  have hslots : (start : PoolSys τ α κ).pool.slotsOf r = 0 := (holders_eq_zero _ r).2 fun _ => hr.symm
  rw [Pool.Balanced, hslots]
  rfl

theorem takesOf_zero_step {a : Act τ α κ} (h : s.pool.takesOf 0 = 0) (hs : s.step a = some s') :
    s'.pool.takesOf 0 = 0 := by
  cases step_cases hs with
  | call t c o ht => exact h
  | thread t o p pc hp =>
    refine (Pool.takesOf_congr ?_).trans h
    generalize s.threads t = pc₀ at hp
    cases hp with
    | cancelUpdate => split <;> rfl
    | cancelUpdateDangling => split <;> rfl
    | _ => rfl
  | worker i o p hp =>
    cases hp with
    | take task rest hpc hr hpop =>
      have hid : task.requestId = (s.pool.workers i).pendingReq := by
        have := popFirst_sat hpop
        exact beq_iff_eq.1 this
      refine (Pool.takesOf_snoc i task rfl 0).trans ?_
      rw [h, if_neg (by rwa [hid])]
    | _ => exact h

theorem balanced_of_exec {as : List (Act τ α κ)} (h : exec PoolSys.step start as = some s) (hr : r ≠ 0) :
    s.pool.Balanced r (tally PoolSys.step (wastes r) start as) := by
  have hbal := exec_inv_tally (I := fun n s => s.pool.Balanced r n) (P := wastes r) (C := fun _ _ => True)
    (fun n s a s' hi _ hs => wakes_balanced_step hi hr hs) (wakes_balanced_start hr) (Along.of_forall fun _ _ => trivial) h
  rwa [Nat.zero_add] at hbal

/-- In every run the wake-ups of an id that have returned 0 are: one for each task of the id that was taken, those
that still stand in a slot, and those that were lost. -/
theorem wake_ledger {as : List (Act τ α κ)} (h : exec PoolSys.step start as = some s) (hr : r ≠ 0) :
    (as.flatMap (wakers r)).countP (fun t => (s.threads t).returnedZero) =
      s.pool.takesOf r + s.pool.slotsOf r + tally PoolSys.step (wastes r) start as := by
  rw [← (callers h r).count, balanced_of_exec h hr]

/-- Two wake-ups return 0 before the worker has its mutex, which then executes one task. -/
def burstFromStart : List (Act (Fin 3) Unit Unit) :=
  .call 0 (.submitBatch twoTasks) {} :: List.replicate 6 (.thread 0 {}) ++ burstRun

theorem burstFromStart_ledger :
    (burstFromStart.flatMap (wakers 7)).countP (fun t => ((last PoolSys.step start burstFromStart
      (by decide +kernel)).threads t).returnedZero) =
      (last PoolSys.step start burstFromStart (by decide +kernel)).pool.takesOf 7 +
        (last PoolSys.step start burstFromStart (by decide +kernel)).pool.slotsOf 7 +
        tally PoolSys.step (wastes 7) start burstFromStart :=
  wake_ledger (exec_last _) (by decide)

end PoolSys
end OsTransport
