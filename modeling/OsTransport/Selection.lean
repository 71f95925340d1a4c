import OsTransport.Submission

/-!
# What `select_best_worker` finds

The loop passes over every worker that has something queued: a worker whose mutex is free is idle, so the
branch for busy workers is never taken. It returns a worker if and only if it comes to one with an empty
queue (`selected_best_iff`), and with something queued on all 64 a valid submission is refused.
-/

namespace OsTransport

/-- The call is in `select_best_worker`. -/
def Pc.selecting {τ α κ : Type} : Pc τ α κ → Bool
  | .select .. => true
  | _ => false

/-- What `select_best_worker` is to find, of the workers it has looked at: one that is idle with an empty queue,
or, none of the 64 being that, one with the fewest tasks queued. -/
def BestOf {τ α κ : Type} (seen : List (WorkerThread τ α κ)) (i : Fin 64) : Prop :=
  ∃ w, seen[i.val]? = some w ∧ (w.state = .idle ∧ w.queueSize = 0 ∨
    seen.length = 64 ∧ (∀ v ∈ seen, ¬(v.state = .idle ∧ v.queueSize = 0)) ∧ ∀ v ∈ seen, w.queueSize ≤ v.queueSize)

namespace PoolSys
variable {τ α κ : Type} [DecidableEq τ] {s s' : PoolSys τ α κ} {t : τ} {b : Submit α κ}
  {nodes : List (ThreadPoolTask τ α κ)}

/-- The worker that a step of the call `t` looks at in `select_best_worker`, under its mutex. -/
def looks (t : τ) (s : PoolSys τ α κ) : Act τ α κ → List (WorkerThread τ α κ)
  | .thread u _ =>
    match s.threads u with
    | .select _ _ i _ _ => if u = t then [s.pool.workers i] else []
    | _ => []
  | _ => []

/-- The call `t` is in `select_best_worker` and has looked at the workers `seen`, or it has just left it. -/
def Looking (t : τ) (b : Submit α κ) (nodes : List (ThreadPoolTask τ α κ)) (seen : List (WorkerThread τ α κ))
    (s : PoolSys τ α κ) : Prop :=
  s.pool.Rested ∧ s.pool.isDestroying = false ∧
    ((∃ i : Fin 64, s.threads t = .select b nodes i none 0xFFFFFFFF ∧ seen.length = i.val ∧
        ∀ v ∈ seen, v.queueSize ≠ 0) ∨
      (∃ (i : Fin 64) (w : WorkerThread τ α κ), s.threads t = Pool.afterSelect b nodes i ∧ seen[i.val]? = some w ∧
        w.state = .idle ∧ w.queueSize = 0) ∨
      s.threads t = .done .null ∧ seen.length = 64 ∧ ∀ v ∈ seen, v.queueSize ≠ 0)

omit [DecidableEq τ] in
theorem afterSelect_not_selecting (b : Submit α κ) (nodes : List (ThreadPoolTask τ α κ)) (i : Fin 64) :
    (Pool.afterSelect b nodes i).selecting = false := by
  unfold Pool.afterSelect
  split <;> rfl

/-- While the call is in `select_best_worker` it has passed over loaded workers only. -/
theorem Looking.step {seen : List (WorkerThread τ α κ)} {a : Act τ α κ} (h : Looking t b nodes seen s)
    (hsel : (s.threads t).selecting = true) (hs : s.step a = some s') :
    Looking t b nodes (seen ++ looks t s a) s' := by
  obtain ⟨hrested, hd, hpc⟩ := h
  have hsel' : ∃ i : Fin 64, s.threads t = .select b nodes i none 0xFFFFFFFF ∧ seen.length = i.val ∧
      ∀ v ∈ seen, v.queueSize ≠ 0 := by
    rcases hpc with hpc | ⟨i, w, hpc, -⟩ | ⟨hpc, -⟩
    · exact hpc
    · rw [hpc, afterSelect_not_selecting] at hsel
      cases hsel
    · rw [hpc] at hsel
      cases hsel
  obtain ⟨i, hpc, hlen, hseen⟩ := hsel'
  refine ⟨rested_step hrested hd hs, (step_flags hs).2.trans hd, ?_⟩
  cases step_cases hs with
  | call u c o hu =>
    have hne : t ≠ u := by
      rintro rfl
      rw [hpc] at hu
      cases hu
    refine .inl ⟨i, ?_, by simpa [looks] using hlen, by simpa [looks] using hseen⟩
    rw [setThread_threads, if_neg hne, hpc]
  | worker j o p hp =>
    exact .inl ⟨i, hpc, by simpa [looks] using hlen, by simpa [looks] using hseen⟩
  | thread u o p pc hp =>
    rcases eq_or_ne t u with rfl | hne
    swap
    · have hlooks : looks t s (.thread u o) = [] := by
        simp only [looks]
        split
        · rw [if_neg (Ne.symm hne)]
        · rfl
      rw [hlooks, List.append_nil]
      refine .inl ⟨i, ?_, hlen, hseen⟩
      rw [setThread_threads, if_neg hne]
      exact hpc
    -- the next worker is looked at
    have hlooks : looks t s (.thread t o) = [s.pool.workers i] := by simp [looks, hpc]
    rw [hlooks, setThread_threads, if_pos rfl]
    rw [hpc] at hp
    cases hp with
    | select _ _ _ _ _ hm =>
    have hseen' : ¬s.pool.Vacant i → ∀ v ∈ seen ++ [s.pool.workers i], v.queueSize ≠ 0 := by
      intro hv v hmem
      rcases List.mem_append.1 hmem with hmem | hmem
      · exact hseen v hmem
      · obtain rfl := List.mem_singleton.1 hmem
        exact fun hq => hv ⟨hrested i hm, hq⟩
    have hlen' : (seen ++ [s.pool.workers i]).length = i.val + 1 := by
      rw [List.length_append, hlen, List.length_singleton]
    rcases Pool.selectStep_rested b nodes 0xFFFFFFFF (hrested i hm) with ⟨hv, hstep⟩ | ⟨hv, ⟨hi, hstep⟩ | ⟨hi, hstep⟩⟩
    · refine .inr (.inl ⟨i, s.pool.workers i, hstep, ?_, hv⟩)
      rw [← hlen, List.getElem?_concat_length]
    · exact .inl ⟨⟨i.val + 1, hi⟩, hstep, hlen', hseen' hv⟩
    · exact .inr (.inr ⟨hstep, by omega, hseen' hv⟩)

/-- Once `select_best_worker` returns, it returns the best worker if and only if it looked at one whose queue is
empty. -/
theorem selected_best_iff {as as' : List (Act τ α κ)} (h : Lts.exec step start as = some s)
    (ht : s.threads t = .select b nodes 0 none 0xFFFFFFFF) (h' : Lts.exec step s as' = some s')
    (hsel : Lts.Along step (fun s _ => (s.threads t).selecting = true) s as')
    (hout : (s'.threads t).selecting = false) :
    (∃ i, s'.threads t = Pool.afterSelect b nodes i ∧ BestOf (Lts.trace step (looks t) s as') i) ↔
      ∃ w ∈ Lts.trace step (looks t) s as', w.queueSize = 0 := by
  have hstart : s.pool.Rested ∧ s.pool.isDestroying = false :=
    Lts.exec_inv' (I := fun s : PoolSys τ α κ => s.pool.Rested ∧ s.pool.isDestroying = false)
      (fun u a u' hu hs => ⟨rested_step hu.1 hu.2 hs, (step_flags hs).2.trans hu.2⟩) ⟨fun _ _ => rfl, rfl⟩ h
  have hnil : Looking t b nodes [] s := ⟨hstart.1, hstart.2, .inl ⟨0, ht, rfl, by simp⟩⟩
  have hlook := Lts.exec_inv_trace (looks t)
    (fun _ u a u' hu hc (hs : u.step a = some u') => Looking.step hu hc hs) hnil hsel h'
  rw [List.nil_append] at hlook
  obtain ⟨-, -, ⟨i, hpc, -⟩ | ⟨i, w, hpc, hw, hidle, hq⟩ | ⟨hpc, -, hseen⟩⟩ := hlook
  · rw [hpc] at hout
    cases hout
  · exact iff_of_true ⟨i, hpc, ⟨w, hw, .inl ⟨hidle, hq⟩⟩⟩ ⟨w, List.mem_of_getElem? hw, hq⟩
  · refine iff_of_false ?_ fun ⟨w, hw, hq⟩ => hseen w hw hq
    rintro ⟨i, hi, -⟩
    rw [hpc] at hi
    unfold Pool.afterSelect at hi
    split at hi <;> cases hi

/-! ### All 64 workers loaded -/

theorem exec_scan (hidle : ∀ j, (s.pool.workers j).state = .idle ∧ (s.pool.workers j).pc = .wait) {i : Fin 64}
    (ht : s.threads t = .select b nodes i none 0xFFFFFFFF) {n : Nat} (hn : i.val + n < 64)
    (hq : ∀ j : Fin 64, j.val < i.val + n → (s.pool.workers j).queueSize ≠ 0) :
    Lts.exec step s (List.replicate n (.thread t {})) =
      some (s.setThread t (.select b nodes ⟨i.val + n, hn⟩ none 0xFFFFFFFF)) := by
  induction n with
  | zero =>
    have : s.setThread t (.select b nodes i none 0xFFFFFFFF) = s := by
      rw [← ht, setThread, Function.update_eq_self]
    simpa using this.symm
  | succ n ih =>
    have hn' : i.val + n < 64 := by omega
    have hm : (s.pool.workers ⟨i.val + n, hn'⟩).mutexFree = true := by
      rw [WorkerThread.mutexFree, (hidle _).2]
    have hstep : s.pool.selectStep b nodes ⟨i.val + n, hn'⟩ none 0xFFFFFFFF =
        .select b nodes ⟨i.val + (n + 1), hn⟩ none 0xFFFFFFFF := by
      have hload := hq ⟨i.val + n, hn'⟩ (Nat.lt_succ_self (i.val + n))
      rcases Pool.selectStep_rested b nodes 0xFFFFFFFF (hidle ⟨i.val + n, hn'⟩).1 with ⟨hv, -⟩ | ⟨-, ⟨_, hnext⟩ | ⟨hlast, -⟩⟩
      · exact absurd hv.2 hload
      · exact hnext
      · simp only at hlast
        omega
    rw [List.replicate_succ', Lts.exec_snoc]
    refine ⟨_, ih hn' fun j hj => hq j (by omega), ?_⟩
    simp only [step, setThread_threads, if_true, setThread_pool, Pool.threadStep, hm, Option.map_some, hstep]
    simp [setThread]

/-- A batch of one task. -/
def oneTask : Batch Unit Unit := ⟨[(1, ())], none, none, by decide⟩

/-- The call `k` submits one task to worker `k`. -/
def load (k : Nat) : List (Act Nat Unit Unit) :=
  .call k (.submitBatch oneTask) {} :: List.replicate (k + 5) (.thread k {})

def loads (n : Nat) : List (Act Nat Unit Unit) := (List.range n).flatMap load

/-- Every worker waits, the first `k` of them with one task queued. -/
structure Loaded (k : Nat) (s : PoolSys Nat Unit Unit) : Prop where
  running : s.pool.isRunning = true
  idle : ∀ j, (s.pool.workers j).state = .idle ∧ (s.pool.workers j).pc = .wait
  size : ∀ j : Fin 64, (s.pool.workers j).queueSize = if j.val < k then 1 else 0
  fresh : ∀ u, k ≤ u → s.threads u = .idle

/-- The submission that `oneTask` makes. -/
def oneSubmit : Submit Unit Unit := ⟨true, 1, [()], none, none, by decide, by decide⟩

theorem Loaded.call {k : Nat} {s : PoolSys Nat Unit Unit} (h : Loaded k s) :
    s.step (.call k (.submitBatch oneTask) {}) =
      some (s.setThread k (.select oneSubmit [] 0 none 0xFFFFFFFF)) := by
  have hval : oneTask.validate = some oneSubmit := rfl
  simp only [step, h.fresh k le_rfl, enter, h.running, hval, Bool.not_true, Bool.false_eq_true, if_false, if_true]

theorem exec_place {s : PoolSys Nat Unit Unit} {k : Nat} {i : Fin 64}
    (ht : s.threads k = .create oneSubmit (some i) []) (hm : (s.pool.workers i).mutexFree = true) :
    ∃ s' node, Lts.exec step s (List.replicate 4 (.thread k {})) = some s' ∧
      s'.pool.workers = (s.pool.putOn i [node] 1).workers ∧ s'.pool.isRunning = s.pool.isRunning ∧
      ∀ u ≠ k, s'.threads u = s.threads u := by
  let node := s.pool.createNode k oneSubmit 0 ()
  let p₁ : Pool Nat Unit Unit := { s.pool with nextTaskId := s.pool.nextTaskId + 1 }
  let p₂ : Pool Nat Unit Unit := { p₁.putOn i [node] 1 with
    hist := { p₁.hist with attached := p₁.hist.attached ++ [(k, i, [node])] } }
  have hcreate : s.pool.threadStep k {} (s.threads k) = some (p₁, .attach oneSubmit i [node]) := by
    rw [ht]
    rfl
  have hattach : p₁.threadStep k {} (.attach oneSubmit i [node]) = some (p₂, .findCtx oneSubmit i [node]) := by
    have hm' : (p₁.workers i).mutexFree = true := hm
    simp only [Pool.threadStep, hm']
    rfl
  obtain ⟨p₃, pc, p₄, hfind, hcount, hw, hrun⟩ : ∃ p₃ pc p₄,
      p₂.threadStep k {} (.findCtx oneSubmit i [node]) = some (p₃, pc) ∧
      p₃.threadStep k {} pc = some (p₄, .done (Pool.taskIds [node])) ∧ p₄.workers = p₂.workers ∧
      p₄.isRunning = s.pool.isRunning := by
    cases hf : p₂.findReqContext oneSubmit.requestId with
    | none =>
      exact ⟨p₂, .insert oneSubmit i [node], p₂.insertReqContext (Pool.newContext k oneSubmit i),
        by simp only [Pool.threadStep, hf], rfl, rfl, rfl⟩
    | some c =>
      exact ⟨p₂, .bump oneSubmit [node] c.owner, p₂.addPending 1 c.owner 1, by simp only [Pool.threadStep, hf], rfl, rfl, rfl⟩
  have hself : ∀ (u : PoolSys Nat Unit Unit) (pc : Pc Nat Unit Unit), (u.setThread k pc).threads k = pc := fun u pc => by
    rw [setThread_threads, if_pos rfl]
  refine ⟨_, node, exec_thread_cons hcreate (exec_thread_cons (by rw [hself]; exact hattach)
    (exec_thread_cons (by rw [hself]; exact hfind) (exec_thread_cons (by rw [hself]; exact hcount) rfl))), hw, hrun, ?_⟩
  intro u hu
  simp only [setThread_threads, if_neg hu]

/-- With something queued on the first `n` workers the loop comes to worker `n`, whoever calls. -/
theorem Loaded.scan {k n : Nat} {s : PoolSys Nat Unit Unit} (h : Loaded k s) (hn : n < 64) (hle : n ≤ k) :
    Lts.exec step (s.setThread k (.select oneSubmit [] 0 none 0xFFFFFFFF)) (List.replicate n (.thread k {})) =
      some (s.setThread k (.select oneSubmit [] ⟨n, hn⟩ none 0xFFFFFFFF)) := by
  have ht : (s.setThread k (.select oneSubmit [] 0 none 0xFFFFFFFF)).threads k = .select oneSubmit [] 0 none 0xFFFFFFFF := by
    rw [setThread_threads, if_pos rfl]
  have hload : ∀ j : Fin 64, j.val < (0 : Fin 64).val + n → (s.pool.workers j).queueSize ≠ 0 := fun j hj => by
    rw [Fin.val_zero, Nat.zero_add] at hj
    rw [h.size j, if_pos (by omega)]
    decide
  have hscan := exec_scan (s := s.setThread k (.select oneSubmit [] 0 none 0xFFFFFFFF)) h.idle ht (by simpa using hn) hload
  rw [hscan]
  simp [setThread]

theorem Loaded.next {k : Nat} {s : PoolSys Nat Unit Unit} (h : Loaded k s) (hk : k < 64) :
    ∃ s', Lts.exec step s (load k) = some s' ∧ Loaded (k + 1) s' := by
  have hm : (s.pool.workers ⟨k, hk⟩).mutexFree = true := by rw [WorkerThread.mutexFree, (h.idle _).2]
  have hvacant : s.pool.selectStep oneSubmit [] ⟨k, hk⟩ none 0xFFFFFFFF = .create oneSubmit (some ⟨k, hk⟩) [] := by
    have hsize := h.size ⟨k, hk⟩
    rw [if_neg (Nat.lt_irrefl k)] at hsize
    simp only [Pool.selectStep, (h.idle ⟨k, hk⟩).1, hsize]
    rfl
  obtain ⟨s', node, hplace, hw, hrun, hother⟩ :=
    exec_place (s := s.setThread k (.create oneSubmit (some ⟨k, hk⟩) [])) (by rw [setThread_threads, if_pos rfl]) hm
  refine ⟨s', ?_, ?_⟩
  · refine Lts.exec_cons.2 ⟨_, h.call, ?_⟩
    rw [show k + 5 = k + (1 + 4) from rfl, List.replicate_add, Lts.exec_append]
    refine ⟨_, h.scan hk le_rfl, ?_⟩
    rw [List.replicate_add, List.replicate_one, List.singleton_append]
    have hlook : s.pool.threadStep k {} (.select oneSubmit [] ⟨k, hk⟩ none 0xFFFFFFFF) =
        some (s.pool, .create oneSubmit (some ⟨k, hk⟩) []) := by
      simp only [Pool.threadStep, hm, if_true, hvacant]
    refine exec_thread_cons (by rw [setThread_threads, if_pos rfl]; exact hlook) ?_
    rw [← hplace]
    simp [setThread]
  · have hworkers : ∀ j, s'.pool.workers j =
        if j = ⟨k, hk⟩ then (s.pool.workers ⟨k, hk⟩).attachNodesToWorker [node] 1 else s.pool.workers j := fun j => by
      rw [hw, Pool.putOn, Pool.setWorker_workers]
      rfl
    refine ⟨hrun.trans h.running, fun j => ?_, fun j => ?_, fun u hu => ?_⟩
    · rw [hworkers]
      split
      · exact h.idle ⟨k, hk⟩
      · exact h.idle j
    · rw [hworkers]
      split
      · rename_i hj
        subst hj
        simp only [WorkerThread.attachNodesToWorker, h.size, Nat.lt_irrefl, if_false, Nat.lt_succ_self, if_true]
        rfl
      · rename_i hj
        have hne : j.val ≠ k := fun e => hj (Fin.ext e)
        rw [h.size j]
        simp only [show (j.val < k + 1) = (j.val < k) by rw [eq_iff_iff]; omega]
    · rw [hother u (by omega), setThread_threads, if_neg (by omega)]
      exact h.fresh u (by omega)

theorem exec_loads {n : Nat} (hn : n ≤ 64) : ∃ s, Lts.exec step start (loads n) = some s ∧ Loaded n s := by
  induction n with
  | zero => exact ⟨start, rfl, rfl, fun _ => ⟨rfl, rfl⟩, fun _ => rfl, fun _ _ => rfl⟩
  | succ n ih =>
    obtain ⟨s, hs, h⟩ := ih (by omega)
    obtain ⟨s', hs', h'⟩ := h.next (by omega)
    refine ⟨s', ?_, h'⟩
    rw [loads, List.range_succ, List.flatMap_append, List.flatMap_singleton]
    exact Lts.exec_append.2 ⟨s, hs, hs'⟩

/-- The first submission looks at worker 0 and takes it. -/
theorem firstLoad_best : ∃ s s' : PoolSys Nat Unit Unit,
    Lts.exec step start [.call 0 (.submitBatch oneTask) {}] = some s ∧ Lts.exec step s [.thread 0 {}] = some s' ∧
    ∃ i, s'.threads 0 = Pool.afterSelect oneSubmit [] i ∧ BestOf (Lts.trace step (looks 0) s [.thread 0 {}]) i := by
  have hcall : Lts.exec step (start : PoolSys Nat Unit Unit) [.call 0 (.submitBatch oneTask) {}] =
      some (start.setThread 0 (.select oneSubmit [] 0 none 0xFFFFFFFF)) := rfl
  have hlook : Lts.exec step (start.setThread 0 (.select oneSubmit [] 0 none 0xFFFFFFFF)) [.thread 0 {}] =
      some ((start.setThread 0 (.select oneSubmit [] 0 none 0xFFFFFFFF)).setThread 0 (.create oneSubmit (some 0) [])) := rfl
  refine ⟨_, _, hcall, hlook, ?_⟩
  refine (selected_best_iff hcall rfl hlook ⟨rfl, fun _ _ => trivial⟩ rfl).2 ⟨_, List.mem_cons_self .., rfl⟩

/-- With one task on each worker, all of them waiting, the next submission looks at every worker and gets none. -/
theorem loaded_refused : ∃ s s', Lts.exec step start (loads 64) = some s ∧
    (∀ i, (s.pool.workers i).state = .idle ∧ (s.pool.workers i).queueSize = 1) ∧
    Lts.exec step s (.call 64 (.submitBatch oneTask) {} :: List.replicate 64 (.thread 64 {})) = some s' ∧
    s'.threads 64 = .done .null := by
  obtain ⟨s, hs, h⟩ := exec_loads le_rfl
  have hm : (s.pool.workers 63).mutexFree = true := by rw [WorkerThread.mutexFree, (h.idle _).2]
  have hlast : s.pool.selectStep oneSubmit [] ⟨63, by decide⟩ none 0xFFFFFFFF = .done .null := by
    have hsize := h.size 63
    simp only [Pool.selectStep, (h.idle ⟨63, by decide⟩).1]
    rw [if_neg]
    · rfl
    · rintro ⟨-, hq⟩
      exact absurd (hsize.symm.trans hq) (by decide)
  refine ⟨s, s.setThread 64 (.done .null), hs, fun i => ⟨(h.idle i).1, ?_⟩, ?_, by rw [setThread_threads, if_pos rfl]⟩
  · rw [h.size i, if_pos i.isLt]
  · refine Lts.exec_cons.2 ⟨_, h.call, ?_⟩
    have hrep : List.replicate 64 (Act.thread 64 {} : Act Nat Unit Unit) = List.replicate 63 (.thread 64 {}) ++ [.thread 64 {}] :=
      List.replicate_succ'
    rw [hrep]
    refine Lts.exec_snoc.2 ⟨_, h.scan (n := 63) (by decide) (by decide), ?_⟩
    have hm' : (s.pool.workers ⟨63, by decide⟩).mutexFree = true := hm
    simp only [step, setThread_threads, if_true, setThread_pool, Pool.threadStep, hm', Option.map_some, hlast]
    simp [setThread]

end PoolSys
end OsTransport
