import OsTransport.Progress

/-!
# Waiting for a request

`Exact` says what a request has done while everything succeeds: each task that has returned has left all of
its operations and has been counted. `Waited` follows `wait_and_free_sync`: it returns 0 when all tasks are
counted, which for a receive is before the last of them has returned. When no task function of the request
is left running at the release, everything the request has to do is done (`recv_waited`).
-/

namespace OsTransport

namespace Progress
variable {ρ ψ : Type}

/-- What the task leaves. -/
def fullOps (a : Request) (arg : TaskArg ρ) : List Op :=
  Sys.issueOp a arg true :: match arg.info with
    | .write _ => []
    | .recv _ => if arg.isLastChunk then [.record] else []

/-- What the task has left when it stands at `pc`. -/
def partOps (a : Request) (arg : TaskArg ρ) : TaskPc → List Op
  | .issue => []
  | _ => [Sys.issueOp a arg true]

/-- One mark when the task has been counted. -/
def partCount : TaskPc → List Unit
  | .issue | .mark _ => []
  | _ => [()]

/-- Where a task stands that has not failed. -/
def PcOk (arg : TaskArg ρ) : TaskPc → Prop
  | .issue => True
  | .mark ok => ok = true
  | .readLast => ∃ r, arg.info = .recv r
  | .readStream | .readEvent | .record => (∃ r, arg.info = .recv r) ∧ arg.isLastChunk = true

structure Exact (a : Request) (v : Progress ρ ψ) : Prop where
  pcs : ∀ i task pc, v.run i = some (task, pc) → PcOk task.taskArg.userArg pc
  ops : Gathers workerOps (fun task => fullOps a task.taskArg.userArg)
    (fun task pc => partOps a task.taskArg.userArg pc) v
  count : Gathers (fun x => List.replicate x.sync.completedTasks ()) (fun _ => [()])
    (fun _ pc => partCount pc) v

section
variable {a : Request} {q : ρ} {act : Action ρ ψ} {v v' : Progress ρ ψ}

theorem PcOk.stay {arg : TaskArg ρ} {o : Oracle} {x x' : Transfer} {pc pc' : TaskPc} (h : PcOk arg pc)
    (ho : pc = .issue → o.ok = true) (hs : Sys.Stay a arg o x pc pc' x') : PcOk arg pc' := by
  cases hs with
  | issue hf => exact ho rfl
  | mark ok r hi hf => exact ⟨r, hi⟩
  | last hl hf => exact ⟨h, hl⟩
  | stream hf => exact h
  | event hf => exact h

theorem Exact.step (h : Exact a v) (hu : v.Single) (hu' : v'.Single) (hm : Move a q v act v')
    (hok : ∀ i o task, act = .worker i o → v.run i = some (task, .issue) → o.ok = true)
    (hf : ∀ i task pc, v.run i = some (task, pc) → v.transfer.freed = false) : Exact a v' where
  pcs := by
    have hnone : ∀ {i j : Fin 64} {x task pc}, v.run i = some x → j ≠ i → v.run j ≠ some (task, pc) :=
      fun hi hj hj' => hj (hu _ _ _ _ hj' hi)
    intro j task pc hj
    cases hm with
    | take i o task' hr =>
      replace hj : Function.update v.run i (some (task', .issue)) j = some (task, pc) := hj
      rcases eq_or_ne j i with rfl | hji
      · rw [Function.update_self] at hj
        cases hj; trivial
      · rw [Function.update_of_ne hji] at hj
        exact h.pcs j task pc hj
    | stay i o task' pc₀ pc₁ x hr hs =>
      replace hj : Function.update v.run i (some (task', pc₁)) j = some (task, pc) := hj
      rcases eq_or_ne j i with rfl | hji
      · rw [Function.update_self] at hj
        cases hj
        exact (h.pcs j task pc₀ hr).stay (fun e => hok j o task rfl (e ▸ hr)) hs
      · rw [Function.update_of_ne hji] at hj
        exact h.pcs j task pc hj
    | leave i o task' pc₀ x hr hl =>
      replace hj : Function.update v.run i none j = some (task, pc) := hj
      rcases eq_or_ne j i with rfl | hji
      · rw [Function.update_self] at hj; cases hj
      · rw [Function.update_of_ne hji] at hj
        exact h.pcs j task pc hj
    | _ => exact h.pcs j task pc hj
  ops := by
    refine Gathers.step h.ops hu hu' hm (fun _ _ ho _ => ho) (fun _ => rfl)
      (fun i o task pc pc' x' ha hr hs hx => ?_) fun i o task pc x' ha hr hl hx => ?_
    · have hpc := h.pcs i task pc hr
      cases hs with
      | issue hf' =>
        rw [workerOps_snoc _ (byWorker_issueOp ..), hx, hok i o task ha hr]
        simp [partOps]
      | mark ok r hi hf' => exact hx
      | last hl hf' => exact hx
      | stream hf' => exact hx
      | event hf' => exact hx
    · have hpc := h.pcs i task pc hr
      cases hl with
      | record =>
        obtain ⟨⟨r, hi⟩, hlast⟩ := hpc
        rw [workerOps_snoc _ rfl, hx]
        simp [partOps, fullOps, hi, hlast]
      | wild hf' => rw [hf i task _ hr] at hf'; cases hf'
      | stale pc hpc' hf' => rw [hf i task _ hr] at hf'; cases hf'
      | mark ok info hi hf' =>
        change workerOps v.transfer = _
        rw [hx]
        simp [partOps, fullOps, hi]
      | notLast hl hf' =>
        obtain ⟨r, hi⟩ := hpc
        rw [hx]
        simp [partOps, fullOps, hi, hl]
  count := by
    refine Gathers.step h.count hu hu' hm (fun _ _ _ hc => by rw [hc]) (fun _ => rfl)
      (fun i o task pc pc' x' ha hr hs hx => ?_) fun i o task pc x' ha hr hl hx => ?_
    · have hpc := h.pcs i task pc hr
      cases hs with
      | issue hf' => exact hx
      | mark ok r hi hf' =>
        obtain rfl : ok = true := hpc
        change List.replicate (v.transfer.sync.completedTasks + 1) () = _
        rw [List.replicate_succ', hx]
        simp [partCount]
      | last hl hf' => exact hx
      | stream hf' => exact hx
      | event hf' => exact hx
    · have hpc := h.pcs i task pc hr
      cases hl with
      | record => exact hx
      | wild hf' => rw [hf i task _ hr] at hf'; cases hf'
      | stale pc hpc' hf' => rw [hf i task _ hr] at hf'; cases hf'
      | mark ok info hi hf' =>
        obtain rfl : ok = true := hpc
        change List.replicate (v.transfer.sync.completedTasks + 1) () = _
        rw [List.replicate_succ', hx]
        simp [partCount]
      | notLast hl hf' => exact hx

/-- As many tasks are counted as have returned, and one more if the running one has been counted. -/
theorem Exact.completed (h : Exact a v) :
    ((∀ i, v.run i = none) → v.transfer.sync.completedTasks = v.returned.length) ∧
    ∀ i task pc, v.run i = some (task, pc) →
      v.transfer.sync.completedTasks = v.returned.length + (partCount pc).length := by
  have hlen : ∀ l : List (ThreadPoolTask (Tid ρ ψ) (TaskArg ρ) Empty),
      (l.flatMap fun _ => [()]).length = l.length := fun l => by simp
  refine ⟨fun hi => ?_, fun i task pc hi => ?_⟩
  · simpa [hlen] using congrArg List.length (h.count.idle hi)
  · simpa [hlen] using congrArg List.length (h.count.busy i task pc hi)

end
/-! ### The release -/

section
variable {a : Request} {q : ρ} {act : Action ρ ψ} {v v' : Progress ρ ψ}

theorem Move.waiter_returned (hm : Move a q v act v') {ok : Bool} (hw : v.transfer.waiter = .returned ok) :
    v'.transfer.waiter = .returned ok := by
  cases hm with
  | stay i o task pc pc' x hr hs => exact hs.frame.2.1.trans hw
  | leave i o task pc x hr hl => exact hl.frame.2.1.trans hw
  | wait hc hw' => rw [hw] at hw'; cases hw'
  | wake o hw' => rw [hw] at hw'; cases hw'
  | success o hw' => rw [hw] at hw'; cases hw'
  | cancel o hw' => rw [hw] at hw'; cases hw'
  | cancelled o hw' => rw [hw] at hw'; cases hw'
  | free o ok' hw' => rw [hw] at hw'; cases hw'
  | _ => exact hw

/-- `wait_and_free_sync` has seen all tasks counted. -/
def Paid (x : Transfer) : Prop := x.waiter = .freeing true ∨ x.waiter = .returned true

structure Waited (a : Request) (v : Progress ρ ψ) : Prop where
  exact : v.transfer.waiter ≠ .returned false → Exact a v
  paid : Paid v.transfer → v.transfer.sync.completedTasks = v.transfer.sync.totalTasks
  freed : v.transfer.freed = true → ∃ ok, v.transfer.waiter = .returned ok
  final : v.transfer.waiter = .returned true → ∀ i, v.run i = none

theorem Waited.not_freed (h : Waited a v) (hw : v.transfer.waiter ≠ .returned false) {i : Fin 64} {x}
    (hi : v.run i = some x) : v.transfer.freed = false := by
  by_contra hf
  obtain ⟨ok, hok⟩ := h.freed (by simpa using hf)
  cases ok
  · exact hw hok
  · rw [h.final hok i] at hi; cases hi

/-- While tasks are left to be counted `wait_and_free_sync` has not seen them counted. -/
theorem Waited.not_paid (h : Waited a v) {i : Fin 64} {task pc} (hi : v.run i = some (task, pc))
    (hpc : partCount pc = []) (hlt : v.returned.length < v.transfer.sync.totalTasks) : ¬ Paid v.transfer := by
  intro hp
  have hw : v.transfer.waiter ≠ .returned false := by
    rcases hp with hp | hp <;> simp [hp]
  have hc := ((h.exact hw).completed.2 i task pc hi)
  rw [hpc] at hc
  have := h.paid hp
  simp only [List.length_nil, Nat.add_zero] at hc
  omega

end
end Progress

open Lts
namespace Sys
variable {ρ ψ : Type} [DecidableEq ρ] [DecidableEq ψ] {args : ρ → Request} {s s' : Sys ρ ψ} {q : ρ}

open Progress in
theorem waited_step {act : Action ρ ψ} (h : Waited (args q) (s.progress q)) (hl : Linked args s)
    (hs : step args s act = some s')
    (hok : ∀ i o task, act = .worker i o → (s.progress q).run i = some (task, .issue) → o.ok = true)
    (hfree : (∃ o, act = .waiter q o) → (s.transfers q).waiter = .freeing true →
      ∀ i, (s.progress q).run i = none) : Waited (args q) (s'.progress q) := by
  have hl' := hl.step hs
  have hm := move hl hs q
  have hexact : (s'.progress q).transfer.waiter ≠ .returned false → Exact (args q) (s'.progress q) :=
    fun hne' => by
      have hne : (s.progress q).transfer.waiter ≠ .returned false := fun hw => hne' (hm.waiter_returned hw)
      exact (h.exact hne).step (hl.single q) (hl'.single q) hm hok fun i task pc hi => h.not_freed hne hi
  have htotal : ∀ {i x}, (s.progress q).run i = some x →
      (s.progress q).returned.length < (s.progress q).transfer.sync.totalTasks := fun hi => hl.returned_lt hi
  have htotal' : ∀ {i x}, (s'.progress q).run i = some x →
      (s'.progress q).returned.length < (s'.progress q).transfer.sync.totalTasks := fun hi => hl'.returned_lt hi
  have hidle : (s.progress q).transfer.caller = .idle → (s.progress q).transfer.waiter = .idle := fun hc =>
    (hl.request q).waited.resolve_right fun ⟨ok, hok⟩ => by
      rw [show (s.transfers q).caller = .idle from hc] at hok; cases hok
  replace hfree : (∃ o, act = .waiter q o) → (s.progress q).transfer.waiter = .freeing true →
      ∀ i, (s.progress q).run i = none := hfree
  generalize s.progress q = v at *
  generalize s'.progress q = v' at *
  refine ⟨hexact, fun hp => ?_, fun hf => ?_, fun hw i => ?_⟩
  · cases hm with
    | register act hc =>
      rcases hp with hp | hp <;> exact absurd ((hidle hc).symm.trans hp) (by simp)
    | success o hw he => exact he
    | free o ok hw =>
      refine h.paid (.inl ?_)
      rcases hp with hp | hp <;> cases hp
      exact hw
    | stay i o task pc pc' x hr hst =>
      cases hst with
      | mark ok r hi hf => exact absurd hp (h.not_paid hr rfl (htotal hr))
      | _ => exact h.paid hp
    | leave i o task pc x hr hle =>
      cases hle with
      | mark ok info hi hf => exact absurd hp (h.not_paid hr rfl (htotal hr))
      | _ => exact h.paid hp
    | wait hc hw => rcases hp with hp | hp <;> cases hp
    | wake o hw => rcases hp with hp | hp <;> cases hp
    | cancel o hw => rcases hp with hp | hp <;> cases hp
    | cancelled o hw => rcases hp with hp | hp <;> cases hp
    | _ => exact h.paid hp
  · cases hm with
    | free o ok hw => exact ⟨ok, rfl⟩
    | stay i o task pc pc' x hr hst =>
      obtain ⟨ok, hok⟩ := h.freed (hst.frame.2.2.1.symm.trans hf)
      exact ⟨ok, hst.frame.2.1.trans hok⟩
    | leave i o task pc x hr hle =>
      obtain ⟨ok, hok⟩ := h.freed (hle.frame.2.2.1.symm.trans hf)
      exact ⟨ok, hle.frame.2.1.trans hok⟩
    | wait hc hw => obtain ⟨ok, hok⟩ := h.freed hf; rw [hw] at hok; cases hok
    | wake o hw => obtain ⟨ok, hok⟩ := h.freed hf; rw [hw] at hok; cases hok
    | success o hw => obtain ⟨ok, hok⟩ := h.freed hf; rw [hw] at hok; cases hok
    | cancel o hw => obtain ⟨ok, hok⟩ := h.freed hf; rw [hw] at hok; cases hok
    | cancelled o hw => obtain ⟨ok, hok⟩ := h.freed hf; rw [hw] at hok; cases hok
    | _ => exact h.freed hf
  · cases hm with
    | free o ok hw' =>
      cases hw
      exact hfree ⟨o, rfl⟩ hw' i
    | take j o task hr =>
      -- all tasks have returned, so none is left to be taken
      have hcount := (h.exact (by simp [show v.transfer.waiter = .returned true from hw])).completed.1
        (h.final hw)
      have hpaid := h.paid (.inr hw)
      have hlt : v.returned.length < v.transfer.sync.totalTasks :=
        htotal' (i := j) (x := (task, .issue)) (Function.update_self ..)
      omega
    | stay j o task pc pc' x hr hst =>
      rw [h.final (hst.frame.2.1.symm.trans hw) j] at hr
      cases hr
    | leave j o task pc x hr hle =>
      rw [h.final (hle.frame.2.1.symm.trans hw) j] at hr
      cases hr
    | wait hc hw' => cases hw
    | wake o hw' => cases hw
    | success o hw' => cases hw
    | cancel o hw' => cases hw
    | cancelled o hw' => cases hw
    | _ => exact h.final hw i

open Progress in
theorem waited_start : Waited (args q) ((start : Sys ρ ψ).progress q) where
  exact _ := by
    refine ⟨fun i task pc hi => ?_, ⟨fun _ => rfl, fun i task pc hi => ?_⟩,
      ⟨fun _ => rfl, fun i task pc hi => ?_⟩⟩ <;> cases hi
  paid _ := rfl
  freed hf := by cases hf
  final _ _ := rfl

/-- No copy of request `q` fails in the step. -/
def CopySucceeds (q : ρ) (s : Sys ρ ψ) (act : Action ρ ψ) : Prop :=
  ∀ i o task, act = .worker i o → (s.progress q).run i = some (task, .issue) → o.ok = true

/-- When `wait_and_free_sync` frees what a successful request owns, no worker is inside a task function of
the request. -/
def FreesAfterReturn (q : ρ) (s : Sys ρ ψ) (act : Action ρ ψ) : Prop :=
  (∃ o, act = .waiter q o) → (s.transfers q).waiter = .freeing true → ∀ i, (s.progress q).run i = none

/-- `cudaMemcpyAsync` of chunk `i`. -/
def copyOp (a : Request) (i : Nat) : Op := .copy i (a.chunk i).dst (a.chunk i).src (a.chunk i).len true

omit [DecidableEq ρ] in
theorem flatMap_fullOps {q : ρ} {a : Request} (ht : a.type = .recv) (hn : 0 < chunksNum a.len) :
    (a.taskArgs q).flatMap (Progress.fullOps a) =
      (List.range (chunksNum a.len)).map (copyOp a) ++ [.record] := by
  have hfull : ∀ i, Progress.fullOps a (a.recvTaskArg q i) =
      copyOp a i :: if i == chunksNum a.len - 1 then [.record] else [] := fun i => rfl
  obtain ⟨n, hn⟩ := Nat.exists_eq_succ_of_ne_zero hn.ne'
  simp only [Request.taskArgs, ht, List.flatMap_map, hfull, hn, Nat.succ_sub_one, List.range_succ,
    List.flatMap_append, List.map_append]
  have hinit : (List.range n).flatMap (fun i => copyOp a i :: if i == n then [.record] else []) =
      (List.range n).map (copyOp a) := by
    rw [List.map_eq_flatMap]
    refine List.flatMap_congr fun i hi => ?_
    have : i ≠ n := (List.mem_range.1 hi).ne
    simp [this]
  rw [hinit]
  simp

theorem byWorker_step {act : Action ρ ψ} (ht : (args q).type = .recv) (hl : Linked args s)
    (hs : step args s act = some s') (h : ∀ op ∈ (s.transfers q).ops, Progress.byWorker op = true) :
    ∀ op ∈ (s'.transfers q).ops, Progress.byWorker op = true := by
  have hm := move hl hs q
  have hsnoc : ∀ {x : Transfer} {op : Op}, (∀ op ∈ x.ops, Progress.byWorker op = true) →
      Progress.byWorker op = true → ∀ op' ∈ x.ops ++ [op], Progress.byWorker op' = true := fun h hop op' hmem => by
    rcases List.mem_append.1 hmem with hmem | hmem
    · exact h op' hmem
    · rwa [List.mem_singleton.1 hmem]
  change ∀ op ∈ (s.progress q).transfer.ops, Progress.byWorker op = true at h
  change ∀ op ∈ (s'.progress q).transfer.ops, Progress.byWorker op = true
  generalize s.progress q = v at h hm
  generalize s'.progress q = v' at hm ⊢
  cases hm with
  | single o hc hlen hsend hle => rw [ht] at hsend; cases hsend
  | firstPost o i hc hsend => rw [ht] at hsend; cases hsend
  | stay i o task pc pc' x hr hst =>
    cases hst with
    | issue hf => exact hsnoc h (Progress.byWorker_issueOp ..)
    | _ => exact h
  | leave i o task pc x hr hle =>
    cases hle with
    | record => exact hsnoc h rfl
    | wild hf => exact hsnoc h rfl
    | stale pc hpc hf => exact hsnoc h rfl
    | _ => exact h
  | _ => exact h

theorem waited {as : List (Action ρ ψ)} (h : exec (step args) start as = some s)
    (hcopy : Along (step args) (CopySucceeds q) start as)
    (hfree : Along (step args) (FreesAfterReturn q) start as) :
    Progress.Waited (args q) (s.progress q) := by
  have hinv : Linked args s ∧ Progress.Waited (args q) (s.progress q) :=
    exec_inv (I := fun s => Linked args s ∧ Progress.Waited (args q) (s.progress q))
      (fun s act s' hi hc hs => ⟨hi.1.step hs, waited_step hi.2 hi.1 hs hc.1 hc.2⟩)
      ⟨linked_start, waited_start⟩ (hcopy.and hfree) h
  exact hinv.2

/-- One receive of a byte under key 5. -/
def oneByte (_ : Fin 1) : Request := ⟨.recv, 0, 0, 1, 5, 5⟩

/-- The notify of its chunk. -/
def oneByteNotify : UrmaCr := ⟨.writeWithImm, (chunkUserData 5 ⟨0, 0, 1⟩ 0 true).userCtx, 0⟩

/-- The receive is posted and waited for, and worker 0 has taken its task and copied the chunk. -/
def oneByteCopied : List (Action (Fin 1) (Fin 1)) :=
  .call 0 {} :: List.replicate 7 (.caller 0 {}) ++ [.wait 0, .wakeUpTask 0 oneByteNotify {}] ++
    List.replicate 3 (.poller 0 {}) ++ List.replicate 2 (.worker 0 {})

/-- The release comes when the task function has returned. -/
def patientRun : List (Action (Fin 1) (Fin 1)) :=
  oneByteCopied ++ List.replicate 5 (.worker 0 {}) ++ List.replicate 3 (.waiter 0 {})

/-- The release comes as soon as the task is counted. -/
def hastyRun : List (Action (Fin 1) (Fin 1)) :=
  oneByteCopied ++ [.worker 0 {}] ++ List.replicate 3 (.waiter 0 {})

instance (s : Sys ρ ψ) (act : Action ρ ψ) : Decidable (FreesAfterReturn q s act) :=
  match act with
  | .waiter q' o =>
    decidable_of_iff (q' = q → (s.transfers q).waiter = .freeing true → ∀ i, (s.progress q).run i = none)
      ⟨fun h ⟨o', e⟩ => h (Action.waiter.inj e).1, fun h e => h ⟨o, by rw [e]⟩⟩
  | .call .. | .caller .. | .wait .. | .wakeUpTask .. | .poller .. | .worker .. =>
    .isTrue fun ⟨_, e⟩ => nomatch e

/-- The section of a worker, if it is one, is told that nothing fails. -/
def workerOk : Action ρ ψ → Bool
  | .worker _ o => o.ok
  | _ => true

theorem copySucceeds_of_ok {as : List (Action ρ ψ)} (h : ∀ act ∈ as, workerOk act = true) :
    Along (step args) (CopySucceeds q) s as :=
  (Along.of_forall h).mono fun _ act hact i o _ e _ => by subst e; exact hact

end Sys
end OsTransport
