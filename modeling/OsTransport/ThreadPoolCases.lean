import OsTransport.ThreadPoolTable

/-!
# What one step of a worker or of a call can do

`WorkerStep` and `ThreadStep` list the cases of `workerStep` and `threadStep` with what each of them
requires and leaves behind. Every invariant of the pool is proved over these cases.
-/

namespace OsTransport
namespace Pool

variable {τ α κ : Type}

/-- Parking a worker touches its state and program counter alone. -/
theorem park_eq (p : Pool τ α κ) (i : Fin 64) : ∃ st pc,
    p.park i = p.setWorker i { p.workers i with state := st, pc := pc } ∧
      (pc = .wait ∧ st = (p.workers i).state ∨ pc = .exited ∧ p.isDestroying = true) := by
  unfold park
  split
  · exact ⟨.exit, .exited, rfl, .inr ⟨rfl, by assumption⟩⟩
  · exact ⟨(p.workers i).state, .wait, rfl, .inl ⟨rfl, rfl⟩⟩

theorem setWorker_setWorker (p : Pool τ α κ) (i : Fin 64) (w w' : WorkerThread τ α κ) :
    (p.setWorker i w).setWorker i w' = p.setWorker i w' := by
  simp [setWorker]

theorem foldl_workerQueuePush (nodes : List (ThreadPoolTask τ α κ)) (w : WorkerThread τ α κ) :
    nodes.foldl WorkerThread.workerQueuePush w =
      { w with queue := w.queue ++ nodes, queueSize := w.queueSize + UInt32.ofNat nodes.length } := by
  induction nodes generalizing w with
  | nil => simp
  | cons task nodes ih =>
    rw [List.foldl_cons, ih]
    simp [WorkerThread.workerQueuePush, UInt32.add_assoc, Nat.add_comm]

variable [DecidableEq τ]

/-- The cases of `workerStep`. -/
inductive WorkerStep (p : Pool τ α κ) (i : Fin 64) (o : Oracle) : Pool τ α κ → Prop
  /-- nothing to run: `pending_req` is 0 or names no task of the queue -/
  | park (st : WorkerState) (pc : WorkerPc τ α κ) (hpc : (p.workers i).pc = .wait)
      (hq : (p.workers i).pendingReq = 0 ∨ p.queued i (p.workers i).pendingReq = [])
      (hpark : pc = .wait ∧ st = (p.workers i).state ∨ pc = .exited ∧ p.isDestroying = true) :
      WorkerStep p i o (p.setWorker i { p.workers i with pendingReq := 0, state := st, pc := pc })
  | take (task : ThreadPoolTask τ α κ) (rest : List (ThreadPoolTask τ α κ))
      (hpc : (p.workers i).pc = .wait) (hr : (p.workers i).pendingReq ≠ 0)
      (hpop : popFirst (fun t => t.requestId == (p.workers i).pendingReq) (p.workers i).queue =
        some (task, rest)) :
      WorkerStep p i o { (p.setWorker i
          { state := .busy, queue := rest, queueSize := (p.workers i).queueSize - 1,
            pendingReq := 0, pc := .func task }) with
        hist := { p.hist with taken := p.hist.taken ++ [(i, task)] } }
  | func (task : ThreadPoolTask τ α κ) (hpc : (p.workers i).pc = .func task) :
      WorkerStep p i o { p.setPc i (.complete task) with
        hist := { p.hist with returned := p.hist.returned ++ [task] } }
  | complete (task : ThreadPoolTask τ α κ) (cbs : List (UInt64 × Bool × κ))
      (hpc : (p.workers i).pc = .complete task) :
      WorkerStep p i o { p.setPc i (.find task) with hist := { p.hist with completeCbs := cbs } }
  | findSome (task : ThreadPoolTask τ α κ) (ctx : RequestContext τ κ)
      (hpc : (p.workers i).pc = .find task) (hf : p.findReqContext task.requestId = some ctx) :
      WorkerStep p i o (p.setPc i (.dec task ctx.owner))
  | findNone (task : ThreadPoolTask τ α κ)
      (hpc : (p.workers i).pc = .find task) (hf : p.findReqContext task.requestId = none) :
      WorkerStep p i o (p.setPc i (.finish task))
  | dec (task : ThreadPoolTask τ α κ) (ctx : τ) (c : RequestContext τ κ)
      (hpc : (p.workers i).pc = .dec task ctx)
      (hd : (p.addPending task.requestId ctx (-1)).deref task.requestId ctx = some c) :
      WorkerStep p i o ((p.addPending task.requestId ctx (-1)).setPc i
        (if c.pendingCount = 0 then .batch task c.batchCb else .finish task))
  | decDangling (task : ThreadPoolTask τ α κ) (ctx : τ) (hpc : (p.workers i).pc = .dec task ctx)
      (hd : (p.addPending task.requestId ctx (-1)).deref task.requestId ctx = none) :
      WorkerStep p i o ((p.addPending task.requestId ctx (-1)).setPc i
        (if o.zero then .remove task else .finish task))
  | batch (task : ThreadPoolTask τ α κ) (cb : Option κ) (cbs : List (UInt32 × Bool × κ))
      (hpc : (p.workers i).pc = .batch task cb) :
      WorkerStep p i o { p.setPc i (.remove task) with hist := { p.hist with batchCbs := cbs } }
  | remove (task : ThreadPoolTask τ α κ) (hpc : (p.workers i).pc = .remove task) :
      WorkerStep p i o ((p.removeReqContext task.requestId).setPc i (.finish task))
  | finish (task : ThreadPoolTask τ α κ) (st : WorkerState) (pc : WorkerPc τ α κ)
      (hpc : (p.workers i).pc = .finish task)
      (hpark : pc = .wait ∧ st = .idle ∨ pc = .exited ∧ p.isDestroying = true) :
      WorkerStep p i o (p.setWorker i { p.workers i with state := st, pc := pc })

theorem loopHead_cases {p : Pool τ α κ} {i : Fin 64} {o : Oracle} (hpc : (p.workers i).pc = .wait) :
    WorkerStep p i o (p.loopHead i) := by
  unfold loopHead
  simp only
  split
  · rename_i h
    obtain ⟨st, pc, hp, hpark⟩ := p.park_eq i
    rw [hp, show p.setWorker i { p.workers i with state := st, pc := pc } =
      p.setWorker i { p.workers i with pendingReq := 0, state := st, pc := pc } by rw [← h]]
    exact .park st pc hpc (.inl h) hpark
  · rename_i h
    simp only [WorkerThread.workerQueuePopByReq, setWorker_workers_self]
    match hpop : popFirst (fun t => t.requestId == (p.workers i).pendingReq) (p.workers i).queue with
    | none =>
      obtain ⟨st, pc, hp, hpark⟩ := (p.setWorker i { p.workers i with pendingReq := 0 }).park_eq i
      simp only [setWorker_workers_self, setWorker_setWorker, setWorker_isDestroying] at hp hpark
      simp only [hpop, Option.map_none, hp]
      exact .park st pc hpc (.inr (popFirst_eq_none.1 hpop)) hpark
    | some (task, rest) =>
      simp only [hpop, Option.map_some, setWorker_setWorker]
      exact .take task rest hpc h hpop

theorem workerStep_cases {p p' : Pool τ α κ} {i : Fin 64} {o : Oracle}
    (h : p.workerStep i o = some p') : WorkerStep p i o p' := by
  unfold workerStep at h
  split at h
  case h_1 hpc => cases h; exact loopHead_cases hpc
  case h_2 task hpc => cases h; exact .func task hpc
  case h_3 task hpc => cases h; exact .complete task _ hpc
  case h_4 task hpc =>
    split at h
    · rename_i ctx hf; cases h; exact .findSome task ctx hpc hf
    · rename_i hf; cases h; exact .findNone task hpc hf
  case h_5 task ctx hpc =>
    simp only at h
    split at h
    · rename_i c hd
      have := WorkerStep.dec (o := o) task ctx c hpc hd
      split at h <;> rename_i hz <;> cases h <;> simpa [hz] using this
    · rename_i hd
      have := WorkerStep.decDangling (o := o) task ctx hpc hd
      split at h <;> rename_i hz <;> cases h <;> simpa [hz] using this
  case h_6 task cb hpc => cases h; exact .batch task cb _ hpc
  case h_7 task hpc => cases h; exact .remove task hpc
  case h_8 task hpc =>
    cases h
    obtain ⟨st, pc, hp, hpark⟩ := (p.setWorker i { p.workers i with state := .idle }).park_eq i
    simp only [setWorker_workers_self, setWorker_setWorker, setWorker_isDestroying] at hp hpark
    rw [hp]
    exact .finish task st pc hpc hpark
  case h_9 => cases h

theorem workers_of_ne {p p' : Pool τ α κ} {i j : Fin 64} {o : Oracle} (h : WorkerStep p i o p') (hj : j ≠ i) :
    p'.workers j = p.workers j := by
  cases h with
  | dec task ctx c hpc hd => exact setPc_workers_ne _ hj _
  | decDangling task ctx hpc hd => exact setPc_workers_ne _ hj _
  | findSome task ctx hpc hf => exact setPc_workers_ne _ hj _
  | findNone task hpc hf => exact setPc_workers_ne _ hj _
  | remove task hpc => exact setPc_workers_ne _ hj _
  | _ => exact setWorker_workers_ne _ hj _

omit [DecidableEq τ] in
/-- One turn of the selection loop goes on, decides on a worker, or finds none. -/
theorem selectStep_cases (p : Pool τ α κ) (b : Submit α κ) (nodes : List (ThreadPoolTask τ α κ))
    (i : Fin 64) (best : Option (Fin 64)) (minLoad : UInt32) :
    (∃ j best' minLoad', p.selectStep b nodes i best minLoad = .select b nodes j best' minLoad') ∨
    (∃ w, p.selectStep b nodes i best minLoad = afterSelect b nodes w) ∨
    p.selectStep b nodes i best minLoad = .done .null := by
  unfold selectStep
  simp only
  split
  · exact .inr (.inl ⟨i, rfl⟩)
  split
  · exact .inl ⟨_, _, _, rfl⟩
  split
  · exact .inr (.inl ⟨_, rfl⟩)
  · exact .inr (.inr rfl)

/-- The cases of `threadStep`: the call `t` at the first program counter, the pool it leaves and its
next program counter. -/
inductive ThreadStep (p : Pool τ α κ) (t : τ) (o : Oracle) : Pc τ α κ → Pool τ α κ → Pc τ α κ → Prop
  | select (b : Submit α κ) (nodes : List (ThreadPoolTask τ α κ)) (i : Fin 64)
      (best : Option (Fin 64)) (minLoad : UInt32) (hm : (p.workers i).mutexFree = true) :
      ThreadStep p t o (.select b nodes i best minLoad) p (p.selectStep b nodes i best minLoad)
  | create (b : Submit α κ) (worker : Option (Fin 64)) (nodes : List (ThreadPoolTask τ α κ)) (arg : α)
      (ha : b.args[nodes.length]? = some arg) :
      ThreadStep p t o (.create b worker nodes) { p with nextTaskId := p.nextTaskId + 1 }
        (afterCreate b worker (nodes ++ [p.createNode t b nodes.length arg]))
  | createFail (b : Submit α κ) (worker : Option (Fin 64)) (nodes : List (ThreadPoolTask τ α κ))
      (id : UInt64) (ho : o.ok = false ∨ o.okNode = false) :
      ThreadStep p t o (.create b worker nodes) { p with nextTaskId := id } (.done .null)
  | attach (b : Submit α κ) (i : Fin 64) (nodes : List (ThreadPoolTask τ α κ)) (size : UInt32)
      (hm : (p.workers i).mutexFree = true) (hs : size = b.count ∨ size = UInt32.ofNat nodes.length) :
      ThreadStep p t o (.attach b i nodes)
        { p.setWorker i { p.workers i with
            queue := (p.workers i).queue ++ nodes, queueSize := (p.workers i).queueSize + size } with
          hist := { p.hist with attached := p.hist.attached ++ [(t, i, nodes)] } }
        (.findCtx b i nodes)
  | attachFail (b : Submit α κ) (i : Fin 64) (nodes : List (ThreadPoolTask τ α κ))
      (ho : o.okNode = false) :
      ThreadStep p t o (.attach b i nodes) p (.done .null)
  | findSome (b : Submit α κ) (i : Fin 64) (nodes : List (ThreadPoolTask τ α κ))
      (ctx : RequestContext τ κ) (hf : p.findReqContext b.requestId = some ctx) :
      ThreadStep p t o (.findCtx b i nodes) p (.bump b nodes ctx.owner)
  | findNone (b : Submit α κ) (i : Fin 64) (nodes : List (ThreadPoolTask τ α κ))
      (hf : p.findReqContext b.requestId = none) :
      ThreadStep p t o (.findCtx b i nodes) p (.insert b i nodes)
  | bump (b : Submit α κ) (nodes : List (ThreadPoolTask τ α κ)) (ctx : τ) :
      ThreadStep p t o (.bump b nodes ctx) (p.addPending b.requestId ctx b.count.toInt32)
        (.done (taskIds nodes))
  | insert (b : Submit α κ) (i : Fin 64) (nodes : List (ThreadPoolTask τ α κ)) (ho : o.ok = true) :
      ThreadStep p t o (.insert b i nodes) (p.insertReqContext (newContext t b i))
        (.done (taskIds nodes))
  | insertFail (b : Submit α κ) (i : Fin 64) (nodes : List (ThreadPoolTask τ α κ))
      (ho : o.ok = false) :
      ThreadStep p t o (.insert b i nodes) p (.done (taskIds nodes))
  | wakeFindSome (r : UInt32) (ctx : RequestContext τ κ) (hf : p.findReqContext r = some ctx) :
      ThreadStep p t o (.wakeFind r) p (.wakeRead r ctx.owner)
  | wakeFindNone (r : UInt32) (hf : p.findReqContext r = none) :
      ThreadStep p t o (.wakeFind r) p (.done (.int (-1)))
  | wakeRead (r : UInt32) (ctx : τ) :
      ThreadStep p t o (.wakeRead r ctx) p
        (.wakeSet r (((p.deref r ctx).map (·.workerIdx)).getD o.idx))
  | wakeSet (r : UInt32) (i : Fin 64) (hm : (p.workers i).mutexFree = true) :
      ThreadStep p t o (.wakeSet r i)
        { p.setWorker i { p.workers i with pendingReq := r } with
          hist := { p.hist with woken := p.hist.woken ++ [(t, r)] } } (.done (.int 0))
  | cancelFindSome (r : UInt32) (ctx : RequestContext τ κ) (hf : p.findReqContext r = some ctx) :
      ThreadStep p t o (.cancelFind r) p (.cancelRead r ctx.owner)
  | cancelFindNone (r : UInt32) (hf : p.findReqContext r = none) :
      ThreadStep p t o (.cancelFind r) p (.done (.int 0))
  | cancelRead (r : UInt32) (ctx : τ) :
      ThreadStep p t o (.cancelRead r ctx) p
        (.cancelQueue r ctx (((p.deref r ctx).map (·.workerIdx)).getD o.idx))
  | cancelQueue (r : UInt32) (ctx : τ) (i : Fin 64) (hm : (p.workers i).mutexFree = true) :
      ThreadStep p t o (.cancelQueue r ctx i)
        { p.setWorker i { p.workers i with
            queue := (p.workers i).queue.filter fun task => !(task.requestId == r)
            queueSize := (p.workers i).queueSize - UInt32.ofNat (p.queued i r).length } with
          hist := { p.hist with cancelled := p.hist.cancelled ++ [(i, r, p.queued i r)] } }
        (if 0 < UInt32.ofNat (p.queued i r).length then
          .cancelUpdate r ctx (UInt32.ofNat (p.queued i r).length) else .done (.int 0))
  | cancelUpdate (r : UInt32) (ctx : τ) (n : UInt32) (c : RequestContext τ κ)
      (hd : (p.addPending r ctx (-n.toInt32)).deref r ctx = some c) :
      ThreadStep p t o (.cancelUpdate r ctx n)
        (if c.pendingCount = 0 then (p.addPending r ctx (-n.toInt32)).removeReqContext r
          else p.addPending r ctx (-n.toInt32)) (.done (.int n.toInt32.toInt))
  | cancelUpdateDangling (r : UInt32) (ctx : τ) (n : UInt32)
      (hd : (p.addPending r ctx (-n.toInt32)).deref r ctx = none) :
      ThreadStep p t o (.cancelUpdate r ctx n)
        (if o.zero then (p.addPending r ctx (-n.toInt32)).removeReqContext r
          else p.addPending r ctx (-n.toInt32)) (.done (.int n.toInt32.toInt))

theorem threadStep_cases {p p' : Pool τ α κ} {t : τ} {o : Oracle} {pc pc' : Pc τ α κ}
    (h : p.threadStep t o pc = some (p', pc')) : ThreadStep p t o pc p' pc' := by
  cases pc with
  | idle => cases h
  | done ret => cases h
  | select b nodes i best minLoad =>
    simp only [threadStep] at h
    split at h <;> cases h
    exact .select b nodes i best minLoad (by assumption)
  | create b worker nodes =>
    simp only [threadStep] at h
    split at h
    · cases h
    rename_i arg ha
    split at h
    · rename_i ho
      cases h; exact .createFail b worker nodes p.nextTaskId (.inl (by simpa using ho))
    split at h <;> cases h
    · rename_i ho
      exact .createFail b worker nodes _ (.inr (by simp_all))
    · exact .create b worker nodes arg ha
  | attach b i nodes =>
    simp only [threadStep] at h
    split at h
    · cases h
    rename_i hm
    have hm : (p.workers i).mutexFree = true := by simpa using hm
    split at h
    · cases h; exact .attach b i nodes _ hm (.inl rfl)
    split at h <;> cases h
    · exact .attachFail b i nodes (by simp_all)
    · rw [foldl_workerQueuePush]
      exact .attach b i nodes _ hm (.inr rfl)
  | findCtx b i nodes =>
    simp only [threadStep] at h
    split at h <;> cases h
    · exact .findSome b i nodes _ (by assumption)
    · exact .findNone b i nodes (by assumption)
  | bump b nodes ctx => cases h; exact .bump b nodes ctx
  | insert b i nodes =>
    simp only [threadStep] at h
    split at h
    · cases h; exact .insert b i nodes (by assumption)
    · split at h <;> cases h
      exact .insertFail b i nodes (by simpa using ‹¬o.ok = true›)
  | wakeFind r =>
    simp only [threadStep] at h
    split at h <;> cases h
    · exact .wakeFindSome r _ (by assumption)
    · exact .wakeFindNone r (by assumption)
  | wakeRead r ctx =>
    have := ThreadStep.wakeRead (p := p) (t := t) (o := o) r ctx
    simp only [threadStep] at h
    split at h <;> rename_i hd <;> cases h <;> simpa [hd] using this
  | wakeSet r i =>
    simp only [threadStep] at h
    split at h <;> cases h
    exact .wakeSet r i (by assumption)
  | cancelFind r =>
    simp only [threadStep] at h
    split at h <;> cases h
    · exact .cancelFindSome r _ (by assumption)
    · exact .cancelFindNone r (by assumption)
  | cancelRead r ctx =>
    have := ThreadStep.cancelRead (p := p) (t := t) (o := o) r ctx
    simp only [threadStep] at h
    split at h <;> rename_i hd <;> cases h <;> simpa [hd] using this
  | cancelQueue r ctx i =>
    simp only [threadStep] at h
    split at h
    · cases h
    rename_i hm
    have := ThreadStep.cancelQueue (p := p) (t := t) (o := o) r ctx i (by simpa using hm)
    simp only [WorkerThread.cancelInWorkerQueue] at h
    change (if 0 < UInt32.ofNat (p.queued i r).length then _ else _) = _ at h
    split at h <;> rename_i hn <;> cases h
    · rw [if_pos hn] at this; exact this
    · rw [if_neg hn] at this; exact this
  | cancelUpdate r ctx n =>
    simp only [threadStep, Option.some.injEq, Prod.mk.injEq] at h
    obtain ⟨rfl, rfl⟩ := h
    match hd : (p.addPending r ctx (-n.toInt32)).deref r ctx with
    | some c => simpa using ThreadStep.cancelUpdate (o := o) r ctx n c hd
    | none => exact .cancelUpdateDangling r ctx n hd

theorem threadStep_worker {p p' : Pool τ α κ} {t : τ} {o : Oracle} {pc pc' : Pc τ α κ}
    (h : ThreadStep p t o pc p' pc') (j : Fin 64) :
    (p'.workers j).pc = (p.workers j).pc ∧ (p'.workers j).state = (p.workers j).state := by
  have hset : ∀ {i : Fin 64} {w : WorkerThread τ α κ}, p'.workers = Function.update p.workers i w →
      w.pc = (p.workers i).pc → w.state = (p.workers i).state →
      (p'.workers j).pc = (p.workers j).pc ∧ (p'.workers j).state = (p.workers j).state := fun hw hpc hst => by
    rw [hw, Function.update_apply]
    split
    · rename_i hj
      rw [hj]; exact ⟨hpc, hst⟩
    · exact ⟨rfl, rfl⟩
  cases h with
  | attach | wakeSet | cancelQueue => exact hset rfl rfl rfl
  | cancelUpdate => split <;> exact ⟨rfl, rfl⟩
  | cancelUpdateDangling => split <;> exact ⟨rfl, rfl⟩
  | _ => exact ⟨rfl, rfl⟩

/-! ### The contexts across a step -/

section
variable {p p' : Pool τ α κ}

omit [DecidableEq τ] in
/-- `c` is `c₀` with its count changed. -/
def SameButCount (c₀ c : RequestContext τ κ) : Prop :=
  c.owner = c₀.owner ∧ c.requestId = c₀.requestId ∧ c.workerIdx = c₀.workerIdx ∧ c.batchCb = c₀.batchCb

omit [DecidableEq τ] in
/-- Every context of `p'` is one of `p`, its count aside. -/
def NoNew (p p' : Pool τ α κ) : Prop := ∀ k, ∀ c ∈ p'.reqHash k, ∃ c₀ ∈ p.reqHash k, SameButCount c₀ c

omit [DecidableEq τ] in
theorem NoNew.of_eq (h : p'.reqHash = p.reqHash) : NoNew p p' := fun k c hc =>
  ⟨c, by rwa [h] at hc, rfl, rfl, rfl, rfl⟩

omit [DecidableEq τ] in
theorem NoNew.trans {q : Pool τ α κ} (h : NoNew p p') (h' : NoNew p' q) : NoNew p q := by
  intro k c hc
  obtain ⟨c₁, hc₁, h₁⟩ := h' k c hc
  obtain ⟨c₀, hc₀, h₀⟩ := h k c₁ hc₁
  exact ⟨c₀, hc₀, h₁.1.trans h₀.1, h₁.2.1.trans h₀.2.1, h₁.2.2.1.trans h₀.2.2.1, h₁.2.2.2.trans h₀.2.2.2⟩

omit [DecidableEq τ] in
theorem NoNew.setChain {k : Fin reqHashSize} {l : List (RequestContext τ κ)}
    (h : ∀ c ∈ l, ∃ c₀ ∈ p.reqHash k, SameButCount c₀ c) : NoNew p (p.setChain k l) := by
  intro j c hc
  change c ∈ Function.update p.reqHash k l j at hc
  rcases eq_or_ne j k with rfl | hj
  · rw [Function.update_self] at hc
    exact h c hc
  · rw [Function.update_of_ne hj] at hc
    exact ⟨c, hc, rfl, rfl, rfl, rfl⟩

omit [DecidableEq τ] in
theorem NoNew.remove (p : Pool τ α κ) (r : UInt32) : NoNew p (p.removeReqContext r) :=
  .setChain fun c hc => ⟨c, List.mem_of_mem_eraseP hc, rfl, rfl, rfl, rfl⟩

theorem NoNew.addPending (p : Pool τ α κ) (r : UInt32) (t : τ) (d : Int32) : NoNew p (p.addPending r t d) := by
  refine .setChain fun c hc => ?_
  obtain ⟨c₀, hc₀, rfl⟩ := List.mem_map.1 hc
  refine ⟨c₀, hc₀, ?_⟩
  split <;> exact ⟨rfl, rfl, rfl, rfl⟩

theorem WorkerStep.noNew {i : Fin 64} {o : Oracle} (hs : WorkerStep p i o p') : NoNew p p' := by
  cases hs with
  | dec task ctx c hpc hd => exact (NoNew.addPending p _ _ _).trans (.of_eq rfl)
  | decDangling task ctx hpc hd => exact (NoNew.addPending p _ _ _).trans (.of_eq rfl)
  | remove task hpc => exact (NoNew.remove p _).trans (.of_eq rfl)
  | _ => exact .of_eq rfl

theorem ThreadStep.noNew {t : τ} {o : Oracle} {pc pc' : Pc τ α κ} (hs : ThreadStep p t o pc p' pc') :
    NoNew p p' ∨ ∃ b i nodes, pc = .insert b i nodes ∧ p' = p.insertReqContext (newContext t b i) ∧
      pc' = .done (taskIds nodes) := by
  cases hs with
  | bump b nodes ctx => exact .inl (NoNew.addPending p _ _ _)
  | insert b i nodes ho => exact .inr ⟨b, i, nodes, rfl, rfl, rfl⟩
  | cancelUpdate r ctx n c hd =>
    refine .inl ?_
    split
    · exact (NoNew.addPending p _ _ _).trans (NoNew.remove _ _)
    · exact NoNew.addPending p _ _ _
  | cancelUpdateDangling r ctx n hd =>
    refine .inl ?_
    split
    · exact (NoNew.addPending p _ _ _).trans (NoNew.remove _ _)
    · exact NoNew.addPending p _ _ _
  | _ => exact .inl (.of_eq rfl)

end
end Pool
end OsTransport

namespace OsTransport.PoolSys

variable {τ α κ : Type} [DecidableEq τ]

/-- The cases of `step`. -/
inductive Step (s : PoolSys τ α κ) : Act τ α κ → PoolSys τ α κ → Prop
  | call (t : τ) (c : Call α κ) (o : Oracle) (ht : s.threads t = .idle) :
      Step s (.call t c o) (s.setThread t (enter s.pool o c))
  | thread (t : τ) (o : Oracle) (p : Pool τ α κ) (pc : Pc τ α κ)
      (h : Pool.ThreadStep s.pool t o (s.threads t) p pc) :
      Step s (.thread t o) ({ s with pool := p }.setThread t pc)
  | worker (i : Fin 64) (o : Oracle) (p : Pool τ α κ) (h : Pool.WorkerStep s.pool i o p) :
      Step s (.worker i o) { s with pool := p }

theorem step_cases {s s' : PoolSys τ α κ} {a : Act τ α κ} (h : s.step a = some s') : Step s a s' := by
  cases a with
  | call t c o =>
    simp only [step] at h
    split at h
    · rename_i ht; cases h; exact .call t c o ht
    · cases h
  | thread t o =>
    obtain ⟨⟨p, pc⟩, hp, rfl⟩ := Option.map_eq_some_iff.1 h
    exact .thread t o p pc (Pool.threadStep_cases hp)
  | worker i o =>
    obtain ⟨p, hp, rfl⟩ := Option.map_eq_some_iff.1 h
    exact .worker i o p (Pool.workerStep_cases hp)

theorem step_flags {s s' : PoolSys τ α κ} {a : Act τ α κ} (h : s.step a = some s') :
    s'.pool.isRunning = s.pool.isRunning ∧ s'.pool.isDestroying = s.pool.isDestroying := by
  cases step_cases h with
  | call t c o ht => exact ⟨rfl, rfl⟩
  | worker i o p hp => cases hp <;> exact ⟨rfl, rfl⟩
  | thread t o p pc hp =>
    generalize s.threads t = pc₀ at hp
    cases hp with
    | cancelUpdate r ctx n c hd =>
      constructor <;> simp only [setThread] <;> split <;> rfl
    | cancelUpdateDangling r ctx n hd =>
      constructor <;> simp only [setThread] <;> split <;> rfl
    | _ => exact ⟨rfl, rfl⟩

@[simp] theorem setThread_pool (s : PoolSys τ α κ) (t : τ) (pc : Pc τ α κ) :
    (s.setThread t pc).pool = s.pool := rfl

theorem setThread_threads (s : PoolSys τ α κ) (t u : τ) (pc : Pc τ α κ) :
    (s.setThread t pc).threads u = if u = t then pc else s.threads u := by
  simp [setThread, Function.update_apply]

end OsTransport.PoolSys
