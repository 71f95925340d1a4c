import OsTransport.ThreadPoolCases

/-!
# Waiting for a worker

A worker keeps its mutex from the section in which it takes a task to the one in which it frees it, and a call that
locks the mutex waits until then. `Pool.finish` is the pool when worker `i` has come to that, `Pool.awaited` when the
first `n` workers have, one after the other, which is how `select_best_worker` waits for them. No queue changes
meanwhile (`awaited_queue`).
-/

namespace OsTransport

/-- How many sections a worker has before it gives its mutex back, at most. -/
def WorkerPc.held {τ α κ : Type} : WorkerPc τ α κ → Nat
  | .func _ => 7
  | .complete _ => 6
  | .find _ => 5
  | .dec .. => 4
  | .batch .. => 3
  | .remove _ => 2
  | .finish _ => 1
  | .wait | .exited => 0

theorem WorkerPc.held_le {τ α κ : Type} (pc : WorkerPc τ α κ) : pc.held ≤ 7 := by
  cases pc <;> simp [held]

theorem WorkerThread.mutexFree_iff {τ α κ : Type} (w : WorkerThread τ α κ) : w.mutexFree = true ↔ w.pc.held = 0 := by
  unfold mutexFree
  cases w.pc <;> simp [WorkerPc.held]

/-- The request whose task a worker has taken and not freed yet. -/
def WorkerPc.requestId? {τ α κ : Type} : WorkerPc τ α κ → Option UInt32
  | .func task | .complete task | .find task | .dec task _ | .batch task _ | .remove task | .finish task =>
    some task.requestId
  | .wait | .exited => none

/-- The worker whose mutex the next section of a call locks. -/
def Pc.locks {τ α κ : Type} : Pc τ α κ → Option (Fin 64)
  | .select _ _ i _ _ => some i
  | .attach _ i _ => some i
  | .wakeSet _ i => some i
  | .cancelQueue _ _ i => some i
  | _ => none

namespace Pool
variable {τ α κ : Type}

/-- The worker that a call waits for. -/
def waitsFor (p : Pool τ α κ) (pc : Pc τ α κ) : Option (Fin 64) := pc.locks.filter fun i => !(p.workers i).mutexFree

theorem waitsFor_eq_some {p : Pool τ α κ} {pc : Pc τ α κ} {i : Fin 64} :
    p.waitsFor pc = some i ↔ pc.locks = some i ∧ (p.workers i).mutexFree = false := by
  rw [waitsFor, Option.filter_eq_some_iff, Bool.not_eq_true']

/-- A worker that is not executing a task is idle. -/
def Rested (p : Pool τ α κ) : Prop := ∀ i, (p.workers i).mutexFree = true → (p.workers i).state = .idle

/-- The two pools have the same workers and the same table. -/
structure Agree (p q : Pool τ α κ) : Prop where
  workers : p.workers = q.workers
  reqHash : p.reqHash = q.reqHash
  alive : p.isDestroying = q.isDestroying

theorem Agree.refl (p : Pool τ α κ) : Agree p p := ⟨rfl, rfl, rfl⟩

theorem Agree.symm {p q : Pool τ α κ} (h : Agree p q) : Agree q p := ⟨h.workers.symm, h.reqHash.symm, h.alive.symm⟩

/-- How many sections the worker that a call waits for has before it gives its mutex back, at most. -/
def delay (p : Pool τ α κ) (pc : Pc τ α κ) : Nat := (p.waitsFor pc).elim 0 fun i => (p.workers i).pc.held

theorem delay_le (p : Pool τ α κ) (pc : Pc τ α κ) : p.delay pc ≤ 7 := by
  unfold delay
  cases p.waitsFor pc with
  | none => exact Nat.zero_le 7
  | some i => exact WorkerPc.held_le _

variable [DecidableEq τ]

/-- The context that worker `i` is about to count down has not been freed. -/
def Live (p : Pool τ α κ) (i : Fin 64) : Prop :=
  ∀ task ctx, (p.workers i).pc = .dec task ctx → p.deref task.requestId ctx ≠ none

theorem Rested.workerStep {p p' : Pool τ α κ} {i : Fin 64} {o : Oracle} (h : p.Rested) (ha : p.isDestroying = false)
    (hs : WorkerStep p i o p') : p'.Rested := by
  intro j hj
  rcases eq_or_ne j i with rfl | hne
  swap
  · rw [workers_of_ne hs hne] at hj ⊢
    exact h j hj
  cases hs with
  | park st pc hpc hq hpark =>
    obtain ⟨-, rfl⟩ := hpark.resolve_right fun hd => by rw [ha] at hd; cases hd.2
    simpa using h j (by simp [WorkerThread.mutexFree, hpc])
  | finish task st pc hpc hpark =>
    obtain ⟨-, rfl⟩ := hpark.resolve_right fun hd => by rw [ha] at hd; cases hd.2
    simp
  | dec task ctx c hpc hd => simp only [setPc_workers_self] at hj; split at hj <;> cases hj
  | decDangling task ctx hpc hd => simp only [setPc_workers_self] at hj; split at hj <;> cases hj
  | _ => simp [WorkerThread.mutexFree] at hj

theorem Rested.threadStep {p p' : Pool τ α κ} {t : τ} {o : Oracle} {pc pc' : Pc τ α κ} (h : p.Rested)
    (hs : ThreadStep p t o pc p' pc') : p'.Rested := by
  intro i hi
  obtain ⟨hpc, hst⟩ := threadStep_worker hs i
  unfold WorkerThread.mutexFree at hi
  rw [hpc] at hi
  rw [hst]
  exact h i hi

/-! ### One worker -/

theorem Agree.workerStep {p q p' : Pool τ α κ} {i : Fin 64} {o : Oracle} (h : Agree p q)
    (hm : (p.workers i).mutexFree = false) (hs : p.workerStep i o = some p') :
    ∃ q', q.workerStep i o = some q' ∧ Agree p' q' := by
  obtain ⟨w, run, dest, next, hash, hist⟩ := p
  obtain ⟨w', run', dest', next', hash', hist'⟩ := q
  obtain ⟨rfl, rfl, rfl⟩ : w = w' ∧ hash = hash' ∧ dest = dest' := ⟨h.workers, h.reqHash, h.alive⟩
  have hdone : ∀ {p₁ q₁ : Pool τ α κ}, some p₁ = some p' → Agree p₁ q₁ → ∃ q', some q₁ = some q' ∧ Agree p' q' :=
    fun he ha => ⟨_, rfl, Option.some.inj he ▸ ha⟩
  unfold WorkerThread.mutexFree at hm
  unfold Pool.workerStep at hs ⊢
  cases hpc : (w i).pc with
  | wait | exited => simp [hpc] at hm
  | func task => simp only [hpc] at hs ⊢; exact hdone hs ⟨rfl, rfl, rfl⟩
  | complete task => simp only [hpc] at hs ⊢; exact hdone hs ⟨rfl, rfl, rfl⟩
  | batch task cb => simp only [hpc] at hs ⊢; exact hdone hs ⟨rfl, rfl, rfl⟩
  | remove task => simp only [hpc] at hs ⊢; exact hdone hs ⟨rfl, rfl, rfl⟩
  | find task =>
    simp only [hpc, findReqContext] at hs ⊢
    split at hs <;> exact hdone hs ⟨rfl, rfl, rfl⟩
  | dec task ctx =>
    simp only [hpc, deref, addPending, setChain] at hs ⊢
    split at hs <;> split at hs <;> rename_i hz <;> simp only [hz, if_true, if_false, Bool.false_eq_true] <;>
      exact hdone hs ⟨rfl, rfl, rfl⟩
  | finish task =>
    simp only [hpc, park, setWorker] at hs ⊢
    refine hdone hs ?_
    split <;> exact ⟨rfl, rfl, rfl⟩

theorem workerStep_held {p : Pool τ α κ} {i : Fin 64} (hm : (p.workers i).mutexFree = false) (o : Oracle) :
    ∃ p', p.workerStep i o = some p' := by
  unfold workerStep
  unfold WorkerThread.mutexFree at hm
  cases hpc : (p.workers i).pc with
  | find task =>
    simp only
    split <;> exact ⟨_, rfl⟩
  | dec task ctx =>
    simp only
    split <;> split <;> exact ⟨_, rfl⟩
  | wait | exited => simp [hpc] at hm
  | _ => exact ⟨_, rfl⟩

theorem deref_addPending_isSome (p : Pool τ α κ) (r : UInt32) (t : τ) (d : Int32) :
    ((p.addPending r t d).deref r t).isSome = (p.deref r t).isSome := by
  have hbumped : ((fun c : RequestContext τ κ => c.owner == t) ∘ bumped t d) = fun c => c.owner == t :=
    funext fun c => congrArg (· == t) (bumped_owner ..)
  rw [deref_eq, deref_eq, addPending_ctxs, if_pos rfl, List.find?_map, hbumped, Option.isSome_map]

theorem workerStep_oracle {p : Pool τ α κ} {i : Fin 64} (h : p.Live i) (o : Oracle) :
    p.workerStep i o = p.workerStep i {} := by
  unfold workerStep
  cases hpc : (p.workers i).pc with
  | dec task ctx =>
    have hsome := (p.deref_addPending_isSome task.requestId ctx (-1)).trans (Option.isSome_iff_ne_none.2 (h task ctx hpc))
    obtain ⟨c, hc⟩ := Option.isSome_iff_exists.1 hsome
    simp only [hc]
  | _ => rfl

/-- What a section of a worker does that holds its mutex. -/
structure Works (p : Pool τ α κ) (i : Fin 64) (p' : Pool τ α κ) : Prop where
  other : ∀ j, j ≠ i → p'.workers j = p.workers j
  queue : (p'.workers i).queue = (p.workers i).queue ∧ (p'.workers i).queueSize = (p.workers i).queueSize
  held : (p'.workers i).pc.held < (p.workers i).pc.held
  alive : p'.isDestroying = p.isDestroying
  live : p'.Live i

theorem works {p p' : Pool τ α κ} {i : Fin 64} {o : Oracle} (hd : p.isDestroying = false)
    (hm : (p.workers i).mutexFree = false) (hs : p.workerStep i o = some p') : Works p i p' := by
  have hstep := workerStep_cases hs
  have hdead : ∀ {pc : WorkerPc τ α κ}, (p'.workers i).pc = pc → (∀ task ctx, pc ≠ .dec task ctx) → p'.Live i :=
    fun hpc hne task ctx he => absurd (hpc.symm.trans he) (hne task ctx)
  have hwait : ∀ {pc : WorkerPc τ α κ}, (p.workers i).pc = pc → pc ≠ .wait := fun hpc he => by
    rw [WorkerThread.mutexFree, hpc, he] at hm
    cases hm
  -- the worker goes on in its task, and holds no pointer to a context there
  have hto : ∀ {pc₀ pc : WorkerPc τ α κ}, (p.workers i).pc = pc₀ →
      p'.workers = Function.update p.workers i { p.workers i with pc := pc } → p'.isDestroying = p.isDestroying →
      pc.held < pc₀.held → (∀ task ctx, pc ≠ .dec task ctx) → Works p i p' := by
    intro pc₀ pc hpc hw hdead hlt hne
    have hself : p'.workers i = { p.workers i with pc := pc } := by rw [hw, Function.update_self]
    refine ⟨fun j hj => by rw [hw, Function.update_of_ne hj], by rw [hself]; exact ⟨rfl, rfl⟩,
      by rw [hself, hpc]; exact hlt, hdead, fun task ctx he => ?_⟩
    rw [hself] at he
    exact absurd he (hne task ctx)
  cases hstep with
  | park st pc hpc => exact absurd rfl (hwait hpc)
  | take task rest hpc => exact absurd rfl (hwait hpc)
  | func task hpc => exact hto hpc rfl rfl (by simp [WorkerPc.held]) (by simp)
  | complete task cbs hpc => exact hto hpc rfl rfl (by simp [WorkerPc.held]) (by simp)
  | findSome task ctx hpc hf =>
    refine ⟨fun j hj => setPc_workers_ne _ hj _, ?_, ?_, rfl, fun task' ctx' he => ?_⟩
    · rw [setPc_workers_self]
      exact ⟨rfl, rfl⟩
    · rw [setPc_workers_self, hpc]
      simp [WorkerPc.held]
    · rw [setPc_workers_self] at he
      cases he
      exact Option.isSome_iff_ne_none.1 (Option.isSome_iff_exists.2 ⟨ctx, deref_of_find hf⟩)
  | findNone task hpc hf => exact hto hpc rfl rfl (by simp [WorkerPc.held]) (by simp)
  | dec task ctx c hpc hc =>
    refine hto hpc rfl rfl ?_ ?_ <;> split <;> simp [WorkerPc.held]
  | decDangling task ctx hpc hc =>
    refine hto hpc rfl rfl ?_ ?_ <;> split <;> simp [WorkerPc.held]
  | batch task cb cbs hpc => exact hto hpc rfl rfl (by simp [WorkerPc.held]) (by simp)
  | remove task hpc => exact hto hpc rfl rfl (by simp [WorkerPc.held]) (by simp)
  | finish task st pc hpc hpark =>
    obtain ⟨rfl, rfl⟩ := hpark.resolve_right fun hex => by rw [hd] at hex; cases hex.2
    refine ⟨fun j hj => setWorker_workers_ne _ hj _, ?_, ?_, rfl, fun task' ctx' he => ?_⟩
    · rw [setWorker_workers_self]
      exact ⟨rfl, rfl⟩
    · rw [setWorker_workers_self, hpc]
      exact Nat.zero_lt_one
    · rw [setWorker_workers_self] at he
      cases he

theorem workerStep_ctxs {p p' : Pool τ α κ} {i : Fin 64} {o : Oracle} {r : UInt32}
    (hm : (p.workers i).mutexFree = false) (hr : (p.workers i).pc.requestId? ≠ some r)
    (hs : p.workerStep i o = some p') : p'.ctxs r = p.ctxs r ∧ (p'.workers i).pc.requestId? ≠ some r := by
  have hwait : (p.workers i).pc ≠ .wait := fun he => by
    rw [WorkerThread.mutexFree, he] at hm
    cases hm
  have hne : ∀ {task : ThreadPoolTask τ α κ} {pc : WorkerPc τ α κ}, (p.workers i).pc = pc →
      pc.requestId? = some task.requestId → r ≠ task.requestId := fun hpc hid he => hr (by rw [hpc, hid, he])
  cases workerStep_cases hs with
  | park st pc hpc => exact absurd hpc hwait
  | take task rest hpc => exact absurd hpc hwait
  | dec task ctx c hpc hd =>
    refine ⟨(addPending_ctxs ..).trans (if_neg (hne hpc rfl)), ?_⟩
    rw [setPc_workers_self]
    rw [hpc] at hr
    split <;> exact hr
  | decDangling task ctx hpc hd =>
    refine ⟨(addPending_ctxs ..).trans (if_neg (hne hpc rfl)), ?_⟩
    rw [setPc_workers_self]
    rw [hpc] at hr
    split <;> exact hr
  | remove task hpc =>
    refine ⟨(removeReqContext_ctxs ..).trans (if_neg (hne hpc rfl)), ?_⟩
    rw [setPc_workers_self]
    rwa [hpc] at hr
  | finish task st pc hpc hpark =>
    refine ⟨rfl, ?_⟩
    rw [setWorker_workers_self]
    rcases hpark with ⟨rfl, -⟩ | ⟨rfl, -⟩ <;> simp [WorkerPc.requestId?]
  | func task hpc | complete task cbs hpc | batch task cb cbs hpc =>
    refine ⟨rfl, ?_⟩
    simp only [setPc_workers_self]
    rwa [hpc] at hr
  | findSome task ctx hpc hf | findNone task hpc hf =>
    refine ⟨rfl, ?_⟩
    rw [setPc_workers_self]
    rwa [hpc] at hr

theorem Works.delay_lt {p p' : Pool τ α κ} {i : Fin 64} {pc : Pc τ α κ} (h : Works p i p')
    (hi : p.waitsFor pc = some i) : p'.delay pc < p.delay pc := by
  have hheld : p.delay pc = (p.workers i).pc.held := by rw [delay, hi]; rfl
  rw [hheld, delay]
  cases hi' : p'.waitsFor pc with
  | none => exact Nat.zero_lt_of_lt h.held
  | some j =>
    obtain rfl : i = j := Option.some.inj ((waitsFor_eq_some.1 hi).1.symm.trans (waitsFor_eq_some.1 hi').1)
    exact h.held

theorem Agree.live {p q : Pool τ α κ} {i : Fin 64} (h : Agree p q) (hl : p.Live i) : q.Live i := fun task ctx he => by
  rw [deref, ← h.reqHash]
  exact hl task ctx (h.workers ▸ he)

/-! ### Until it gives its mutex back -/

/-- At most `n` sections of worker `i` while it holds its mutex. -/
def finishIn (i : Fin 64) : Nat → Pool τ α κ → Pool τ α κ
  | 0, p => p
  | n + 1, p =>
    if (p.workers i).mutexFree then p
    else match p.workerStep i {} with
      | some p' => finishIn i n p'
      | none => p

/-- Worker `i` has freed the task it was executing, if it was. -/
def finish (p : Pool τ α κ) (i : Fin 64) : Pool τ α κ := finishIn i 7 p

/-- The first `n` workers have freed the task they were executing, one after the other. -/
def awaited (p : Pool τ α κ) : Nat → Pool τ α κ
  | 0 => p
  | n + 1 => (p.awaited n).finish (Fin.ofNat 64 n)

section
variable {p q p' : Pool τ α κ} {i : Fin 64} {n : Nat}

theorem finishIn_free (hm : (p.workers i).mutexFree = true) : finishIn i n p = p := by
  cases n with
  | zero => rfl
  | succ n => rw [finishIn, if_pos hm]

theorem finish_free (hm : (p.workers i).mutexFree = true) : p.finish i = p := finishIn_free hm

theorem finishIn_step (hm : (p.workers i).mutexFree = false) (hs : p.workerStep i {} = some p') :
    finishIn i (n + 1) p = finishIn i n p' := by
  rw [finishIn, if_neg (by simp [hm]), hs]

/-- What holds of the pool, and is kept by the sections of a worker that holds its mutex, holds when it has freed
its task. -/
theorem finishIn_induct {I : Pool τ α κ → Prop} (hI : ∀ u u', I u → (u.workers i).mutexFree = false →
    u.workerStep i {} = some u' → I u') (h : I p) : I (finishIn i n p) := by
  induction n generalizing p with
  | zero => exact h
  | succ n ih =>
    cases hm : (p.workers i).mutexFree with
    | true => rwa [finishIn_free hm]
    | false =>
      obtain ⟨p', hs⟩ := workerStep_held hm {}
      rw [finishIn_step hm hs]
      exact ih (hI p p' h hm hs)

/-- Sections that the worker has no need of change nothing. -/
theorem finishIn_succ (hd : p.isDestroying = false) (hn : (p.workers i).pc.held ≤ n) :
    finishIn i (n + 1) p = finishIn i n p := by
  induction n generalizing p with
  | zero => rw [finishIn_free ((WorkerThread.mutexFree_iff _).2 (Nat.le_zero.1 hn)), finishIn]
  | succ n ih =>
    cases hm : (p.workers i).mutexFree with
    | true => rw [finishIn_free hm, finishIn_free hm]
    | false =>
      obtain ⟨p', hs⟩ := workerStep_held hm {}
      have hw := works hd hm hs
      rw [finishIn_step hm hs, finishIn_step hm hs]
      exact ih (hw.alive.trans hd) (by have := hw.held; omega)

theorem finish_step (hd : p.isDestroying = false) (hm : (p.workers i).mutexFree = false) (hl : p.Live i) {o : Oracle}
    (hs : p.workerStep i o = some p') : p'.finish i = p.finish i := by
  rw [workerStep_oracle hl] at hs
  have hw := works hd hm hs
  have := hw.held
  have := (p.workers i).pc.held_le
  rw [finish, finish, finishIn_step hm hs]
  exact finishIn_succ (hw.alive.trans hd) (by omega)

theorem finish_mutexFree (hd : p.isDestroying = false) : ((p.finish i).workers i).mutexFree = true := by
  have hgo : ∀ (n : Nat) (u : Pool τ α κ), u.isDestroying = false → (u.workers i).pc.held ≤ n →
      ((finishIn i n u).workers i).mutexFree = true := by
    intro n
    induction n with
    | zero => exact fun u _ hn => (WorkerThread.mutexFree_iff _).2 (Nat.le_zero.1 hn)
    | succ n ih =>
      intro u hu hn
      cases hm : (u.workers i).mutexFree with
      | true => rwa [finishIn_free hm]
      | false =>
        obtain ⟨u', hs⟩ := workerStep_held hm {}
        have hw := works hu hm hs
        rw [finishIn_step hm hs]
        exact ih u' (hw.alive.trans hu) (by have := hw.held; omega)
  exact hgo 7 p hd (p.workers i).pc.held_le

theorem finish_alive (hd : p.isDestroying = false) : (p.finish i).isDestroying = false :=
  finishIn_induct (I := fun u => u.isDestroying = false) (fun _ _ hu hm hs => (works hu hm hs).alive.trans hu) hd

theorem finish_other (hd : p.isDestroying = false) {j : Fin 64} (hj : j ≠ i) :
    (p.finish i).workers j = p.workers j :=
  (finishIn_induct (I := fun u => u.isDestroying = false ∧ u.workers j = p.workers j) (fun _ _ hu hm hs =>
    ⟨(works hu.1 hm hs).alive.trans hu.1, ((works hu.1 hm hs).other j hj).trans hu.2⟩) ⟨hd, rfl⟩).2

theorem finish_queue (hd : p.isDestroying = false) (j : Fin 64) : ((p.finish i).workers j).queue = (p.workers j).queue ∧
    ((p.finish i).workers j).queueSize = (p.workers j).queueSize := by
  rcases eq_or_ne j i with rfl | hj
  · exact (finishIn_induct (i := j) (I := fun u => u.isDestroying = false ∧ (u.workers j).queue = (p.workers j).queue ∧
      (u.workers j).queueSize = (p.workers j).queueSize) (fun _ _ hu hm hs =>
        have hw := works hu.1 hm hs
        ⟨hw.alive.trans hu.1, hw.queue.1.trans hu.2.1, hw.queue.2.trans hu.2.2⟩) ⟨hd, rfl, rfl⟩).2
  · rw [finish_other hd hj]
    exact ⟨rfl, rfl⟩

theorem finish_ctxs {r : UInt32} (hd : p.isDestroying = false) (hr : ∀ j, (p.workers j).pc.requestId? ≠ some r) :
    (p.finish i).ctxs r = p.ctxs r ∧ ∀ j, ((p.finish i).workers j).pc.requestId? ≠ some r := by
  have hkept := finishIn_induct (i := i) (n := 7) (I := fun u => u.ctxs r = p.ctxs r ∧ (u.workers i).pc.requestId? ≠ some r)
    (fun _ _ hu hm hs => ⟨(workerStep_ctxs hm hu.2 hs).1.trans hu.1, (workerStep_ctxs hm hu.2 hs).2⟩) ⟨rfl, hr i⟩
  refine ⟨hkept.1, fun j => ?_⟩
  rcases eq_or_ne j i with rfl | hj
  · exact hkept.2
  · rw [finish_other hd hj]
    exact hr j

theorem Rested.finish (h : p.Rested) (hd : p.isDestroying = false) : (p.finish i).Rested :=
  (finishIn_induct (I := fun u => u.isDestroying = false ∧ u.Rested) (fun _ _ hu hm hs =>
    ⟨(works hu.1 hm hs).alive.trans hu.1, hu.2.workerStep hu.1 (workerStep_cases hs)⟩) ⟨hd, h⟩).2

theorem Agree.finish (h : Agree p q) : Agree (p.finish i) (q.finish i) := by
  have hgo : ∀ (n : Nat) {u v : Pool τ α κ}, Agree u v → Agree (finishIn i n u) (finishIn i n v) := by
    intro n
    induction n with
    | zero => exact id
    | succ n ih =>
      intro u v huv
      cases hm : (u.workers i).mutexFree with
      | true =>
        rw [finishIn_free hm, finishIn_free (by rw [← huv.workers]; exact hm)]
        exact huv
      | false =>
        obtain ⟨u', hs⟩ := workerStep_held hm {}
        obtain ⟨v', hs', huv'⟩ := huv.workerStep hm hs
        rw [finishIn_step hm hs, finishIn_step (by rw [← huv.workers]; exact hm) hs']
        exact ih huv'
  exact hgo 7 h

end

/-! ### One worker after the other -/

section
variable {p : Pool τ α κ}

theorem awaited_alive (hd : p.isDestroying = false) (n : Nat) : (p.awaited n).isDestroying = false := by
  induction n with
  | zero => exact hd
  | succ n ih => exact finish_alive ih

theorem awaited_queue (hd : p.isDestroying = false) (n : Nat) (j : Fin 64) :
    ((p.awaited n).workers j).queue = (p.workers j).queue ∧
      ((p.awaited n).workers j).queueSize = (p.workers j).queueSize := by
  induction n with
  | zero => exact ⟨rfl, rfl⟩
  | succ n ih =>
    have hq := finish_queue (i := Fin.ofNat 64 n) (awaited_alive hd n) j
    exact ⟨hq.1.trans ih.1, hq.2.trans ih.2⟩

/-- The contexts of a request that no worker executes a task of stay as they are. -/
theorem awaited_ctxs {r : UInt32} (hd : p.isDestroying = false) (hr : ∀ j, (p.workers j).pc.requestId? ≠ some r)
    (n : Nat) : (p.awaited n).ctxs r = p.ctxs r := by
  have hgo : (p.awaited n).ctxs r = p.ctxs r ∧ ∀ j, ((p.awaited n).workers j).pc.requestId? ≠ some r := by
    induction n with
    | zero => exact ⟨rfl, hr⟩
    | succ n ih =>
      have hstep := finish_ctxs (i := Fin.ofNat 64 n) (awaited_alive hd n) ih.2
      exact ⟨hstep.1.trans ih.1, hstep.2⟩
  exact hgo.1

theorem Rested.awaited (h : p.Rested) (hd : p.isDestroying = false) (n : Nat) : (p.awaited n).Rested := by
  induction n with
  | zero => exact h
  | succ n ih => exact ih.finish (awaited_alive hd n)

theorem awaited_succ (i : Fin 64) : p.awaited (i + 1) = (p.awaited i).finish i := by
  rw [awaited, Fin.ofNat_val_eq_self]

theorem awaited_mutexFree (hd : p.isDestroying = false) (i : Fin 64) :
    ((p.awaited (i + 1)).workers i).mutexFree = true := by
  rw [awaited_succ]
  exact finish_mutexFree (awaited_alive hd i)

theorem awaited_later (hd : p.isDestroying = false) {n : Nat} {j : Fin 64} (hj : n ≤ j) :
    (p.awaited n).workers j = p.workers j := by
  induction n with
  | zero => rfl
  | succ n ih =>
    have hne : j ≠ Fin.ofNat 64 n := fun e => by
      have hval : j.val = n % 64 := congrArg Fin.val e
      have := j.isLt
      omega
    rw [awaited, finish_other (awaited_alive hd n) hne]
    exact ih (Nat.le_of_succ_le hj)

end

end Pool
end OsTransport
