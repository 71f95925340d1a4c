import OsTransport.Headers
import OsTransport.RecvWait
import OsTransport.TransportReuse

/-!
# What `wait_and_free_sync` returning 0 means

Whatever the keys, the wake-ups and the failures, workers issue the chunks of a request in the order of its
tasks, each at most once (`issued_isPrefix`). `Sound` counts the operations that succeeded against
`completed_tasks` until the request is freed, so that a wait that has seen all tasks completed has seen
every operation of the request succeed (`Verdict`).
-/

namespace OsTransport

namespace Progress
variable {ρ ψ : Type}

/-- What workers have sent or copied for the request. -/
def issues (x : Transfer) : List Op := (workerOps x).filter fun op => (issued? op).isSome

/-- URMA or CUDA took the operation. -/
def good : Op → Bool
  | .post _ _ ok | .copy _ _ _ _ ok => ok
  | _ => false

/-- The operation with the outcome left out. -/
def attempt : Op → Op
  | .post chunk wr _ => .post chunk wr true
  | .copy chunk dst src len _ => .copy chunk dst src len true
  | op => op

theorem attempt_eq {op : Op} (h : good op = true) : attempt op = op := by
  cases op with
  | post chunk wr ok =>
    obtain rfl : ok = true := h
    rfl
  | copy chunk dst src len ok =>
    obtain rfl : ok = true := h
    rfl
  | _ => cases h

section
variable {a : Request} {arg : TaskArg ρ} {ok : Bool} {x : Transfer} {op : Op}

theorem issued?_issueOp : issued? (Sys.issueOp a arg ok) = some arg.chunkInfo := by
  unfold Sys.issueOp
  cases arg.info <;> rfl

@[simp] theorem good_issueOp : good (Sys.issueOp a arg ok) = ok := by
  unfold Sys.issueOp
  cases arg.info <;> rfl

@[simp] theorem attempt_issueOp : attempt (Sys.issueOp a arg ok) = Sys.issueOp a arg true := by
  unfold Sys.issueOp
  cases arg.info <;> rfl

theorem issues_congr {x' : Transfer} (h : workerOps x' = workerOps x) : issues x' = issues x := by
  rw [issues, issues, h]

theorem issues_snoc (hop : byWorker op = true) (hi : (issued? op).isSome = true) :
    issues { x with ops := x.ops ++ [op] } = issues x ++ [op] := by
  rw [issues, workerOps_snoc x hop, List.filter_append]
  simp [issues, hi]

theorem issues_snoc_of_not (hi : issued? op = none) : issues { x with ops := x.ops ++ [op] } = issues x := by
  have hop : ([op].filter byWorker).filter (fun op => (issued? op).isSome) = [] := by
    rw [List.filter_eq_nil_iff]
    intro op' hop'
    obtain rfl := List.mem_singleton.1 (List.mem_filter.1 hop').1
    simp [hi]
  simp only [issues, workerOps, List.filter_append, hop, List.append_nil]

@[simp] theorem issues_sync (sync : TaskSync) : issues { x with sync := sync } = issues x := rfl

theorem issues_issueOp : issues { x with ops := x.ops ++ [Sys.issueOp a arg ok] } =
    issues x ++ [Sys.issueOp a arg ok] :=
  issues_snoc (byWorker_issueOp ..) (by rw [issued?_issueOp]; rfl)

theorem filterMap_issued? : (workerOps x).filterMap issued? = x.ops.filterMap issued? := by
  rw [workerOps, List.filterMap_filter]
  refine List.filterMap_congr fun op _ => ?_
  cases op <;> rfl

theorem length_issues : ((workerOps x).filterMap issued?).length = (issues x).length := by
  rw [issues, List.length_filterMap_eq_countP, List.countP_eq_length_filter]

end

/-! ### The chunks issued -/

/-- The task has been issued. -/
def started (task : ThreadPoolTask (Tid ρ ψ) (TaskArg ρ) Empty) (pc : TaskPc) :
    List (ThreadPoolTask (Tid ρ ψ) (TaskArg ρ) Empty) :=
  if pc = .issue then [] else [task]

theorem traced_start {q : ρ} [DecidableEq ρ] [DecidableEq ψ] : Traced ((Sys.start : Sys ρ ψ).progress q) :=
  ⟨fun _ => rfl, fun i task pc hi => by cases hi⟩

/-- What workers have issued, outcomes aside, is what the tasks give that were taken. -/
abbrev Issued (a : Request) (v : Progress ρ ψ) : Prop :=
  Gathers (fun x => (issues x).map attempt) (fun task => [Sys.issueOp a task.taskArg.userArg true])
    (fun task pc => (started task pc).map fun task => Sys.issueOp a task.taskArg.userArg true) v

theorem Issued.step {a : Request} {q : ρ} {act : Action ρ ψ} {v v' : Progress ρ ψ} (h : Issued a v) (hu : v.Single)
    (hu' : v'.Single) (hm : Move a q v act v')
    (hf : ∀ i task, v.run i = some (task, .issue) → v.transfer.freed = false) : Issued a v' := by
  refine Gathers.step h hu hu' hm (fun x x' ho _ => by simp only [issues_congr ho]) (fun task => rfl)
    (fun i o task pc pc' x' _ _ hs hx => ?_) fun i o task pc x' _ hr hl hx => ?_
  · cases hs with
    | issue hf' =>
      simp only [issues_issueOp, List.map_append, hx]
      simp [started]
    | _ => exact hx
  · cases hl with
    | record =>
      rw [issues_snoc_of_not rfl, hx]
      rfl
    | wild hf' => rw [hf i task hr] at hf'; cases hf'
    | stale pc hpc hf' =>
      rw [issues_snoc_of_not rfl, hx]
      simp [started, hpc.1]
    | _ => exact hx

/-! ### The operations that have succeeded -/

/-- The task's success is about to be counted. -/
def owed : TaskPc → Nat
  | .mark true => 1
  | _ => 0

/-- One operation for each task that was issued, and each success is counted or its task is about to be. -/
structure Sound (a : Request) (v : Progress ρ ψ) : Prop where
  ops : Issued a v
  idle : (∀ i, v.run i = none) → v.transfer.sync.completedTasks = (issues v.transfer).countP good
  busy : ∀ i task pc, v.run i = some (task, pc) →
    v.transfer.sync.completedTasks + owed pc = (issues v.transfer).countP good
  bad : ∀ i task, v.run i = some (task, .mark false) → ∃ op ∈ issues v.transfer, good op = false

section
variable {a : Request} {q : ρ} {act : Action ρ ψ} {v v' : Progress ρ ψ}
open Function (update update_self update_of_ne)

theorem Sound.le (h : Sound a v) : v.transfer.sync.completedTasks ≤ (issues v.transfer).countP good := by
  by_cases hrun : ∀ i, v.run i = none
  · exact (h.idle hrun).le
  · obtain ⟨i, hi⟩ := not_forall.1 hrun
    obtain ⟨⟨task, pc⟩, hi⟩ := Option.ne_none_iff_exists'.1 hi
    have := h.busy i task pc hi
    omega

theorem Move.ops_isPrefix (hm : Move a q v act v') : v.transfer.ops <+: v'.transfer.ops := by
  cases hm with
  | single | firstPost => exact List.prefix_append _ _
  | stay i o task pc pc' x hr hs =>
    cases hs with
    | issue hf => exact List.prefix_append _ _
    | _ => exact List.prefix_refl _
  | leave i o task pc x hr hl =>
    cases hl with
    | record | wild | stale => exact List.prefix_append _ _
    | _ => exact List.prefix_refl _
  | _ => exact List.prefix_refl _

theorem Move.issues_isPrefix (hm : Move a q v act v') : issues v.transfer <+: issues v'.transfer :=
  (hm.ops_isPrefix.filter _).filter _

theorem Sound.bad_step (h : Sound a v) (hu : v.Single) (hm : Move a q v act v') (i : Fin 64)
    (task : ThreadPoolTask (Tid ρ ψ) (TaskArg ρ) Empty) (hi : v'.run i = some (task, .mark false)) :
    ∃ op ∈ issues v'.transfer, good op = false := by
  have hold : v.run i = some (task, .mark false) → ∃ op ∈ issues v'.transfer, good op = false := by
    intro hr
    obtain ⟨op, hop, hg⟩ := h.bad i task hr
    exact ⟨op, hm.issues_isPrefix.subset hop, hg⟩
  cases hm with
  | take j o task' hr =>
    refine hold ?_
    replace hi : update v.run j (some (task', .issue)) i = some (task, .mark false) := hi
    rcases eq_or_ne i j with rfl | hij
    · rw [update_self] at hi
      cases hi
    · rwa [update_of_ne hij] at hi
  | stay j o task' pc pc' x hr hs =>
    replace hi : update v.run j (some (task', pc')) i = some (task, .mark false) := hi
    rcases eq_or_ne i j with rfl | hij
    · rw [update_self] at hi
      have hpc := (Prod.mk.inj (Option.some.inj hi)).2
      cases hs with
      | issue hf =>
        refine ⟨Sys.issueOp a task'.taskArg.userArg o.ok, ?_, ?_⟩
        · rw [issues_issueOp]
          simp
        · rw [good_issueOp]
          exact TaskPc.mark.inj hpc
      | _ => cases hpc
    · rw [update_of_ne hij] at hi
      exact absurd (hu i j _ _ hi hr) hij
  | leave j o task' pc x hr hl =>
    refine hold ?_
    replace hi : update v.run j none i = some (task, .mark false) := hi
    rcases eq_or_ne i j with rfl | hij
    · rw [update_self] at hi
      cases hi
    · rwa [update_of_ne hij] at hi
  | _ => exact hold hi

theorem Sound.run_step (h : Sound a v) (hu : v.Single) {i : Fin 64}
    {task : ThreadPoolTask (Tid ρ ψ) (TaskArg ρ) Empty} {pc : TaskPc} {x : Transfer} {r}
    (hr : v.run i = some (task, pc))
    (hx : v.transfer.sync.completedTasks + owed pc = (issues v.transfer).countP good →
      x.sync.completedTasks + (r.map fun y => owed y.2).getD 0 = (issues x).countP good) :
    ((∀ j, update v.run i r j = none) → x.sync.completedTasks = (issues x).countP good) ∧
      ∀ j task' pc', update v.run i r j = some (task', pc') →
        x.sync.completedTasks + owed pc' = (issues x).countP good := by
  have hcount := hx (h.busy i task pc hr)
  refine ⟨fun hnone => ?_, fun j task' pc' hj => ?_⟩
  · obtain rfl : r = none := by simpa using hnone i
    exact hcount
  · rcases eq_or_ne j i with rfl | hji
    · rw [update_self] at hj
      subst hj
      exact hcount
    · rw [update_of_ne hji] at hj
      exact absurd (hu j i _ _ hj hr) hji

theorem Sound.step (h : Sound a v) (hu : v.Single) (hu' : v'.Single) (hm : Move a q v act v')
    (hf : v.transfer.freed = false) : Sound a v' := by
  have hops := Issued.step h.ops hu hu' hm fun _ _ _ => hf
  have hsame : ∀ {x}, issues x = issues v.transfer →
      x.sync.completedTasks = v.transfer.sync.completedTasks →
      ((∀ i, v.run i = none) → x.sync.completedTasks = (issues x).countP good) ∧
        ∀ i task pc, v.run i = some (task, pc) → x.sync.completedTasks + owed pc = (issues x).countP good := by
    intro x hi hc
    rw [hi, hc]
    exact ⟨h.idle, h.busy⟩
  have hbad := h.bad_step hu hm
  suffices hcount : ((∀ i, v'.run i = none) → v'.transfer.sync.completedTasks = (issues v'.transfer).countP good) ∧
      ∀ i task pc, v'.run i = some (task, pc) →
        v'.transfer.sync.completedTasks + owed pc = (issues v'.transfer).countP good from
    ⟨hops, hcount.1, hcount.2, hbad⟩
  cases hm with
  | single o hc hlen ht hle => exact hsame (issues_snoc_of_not rfl) rfl
  | firstPost o i hc ht => exact hsame (issues_snoc_of_not rfl) rfl
  | take i o task hr =>
    -- before, no task was running
    have hnone : ∀ j, v.run j = none := by
      intro j
      rcases eq_or_ne j i with rfl | hj
      · exact hr
      · by_contra hne
        obtain ⟨y, hy⟩ := Option.ne_none_iff_exists'.1 hne
        exact hj (hu' j i y (task, .issue) ((update_of_ne hj ..).trans hy) (update_self ..))
    have hcount := h.idle hnone
    refine ⟨fun _ => hcount, fun j task' pc hj => ?_⟩
    replace hj : update v.run i (some (task, .issue)) j = some (task', pc) := hj
    rcases eq_or_ne j i with rfl | hji
    · rw [update_self] at hj
      cases hj
      exact hcount
    · rw [update_of_ne hji, hnone j] at hj
      cases hj
  | stay i o task pc pc' x hr hs =>
    refine h.run_step hu hr fun hc => ?_
    cases hs with
    | issue hf' =>
      rw [issues_issueOp, List.countP_append, ← hc]
      cases ho : o.ok <;> simp [owed, good_issueOp]
    | mark ok r hi hf' =>
      rw [issues_sync, ← hc]
      cases ok <;> rfl
    | _ => exact hc
  | leave i o task pc x hr hl =>
    refine h.run_step (r := none) hu hr fun hc => ?_
    cases hl with
    | record =>
      rw [issues_snoc_of_not rfl]
      exact hc
    | wild hf' => rw [hf] at hf'; cases hf'
    | stale pc hpc hf' => rw [hf] at hf'; cases hf'
    | mark ok info hi hf' =>
      rw [issues_sync, ← hc]
      cases ok <;> rfl
    | notLast hl hf' => exact hc
  | _ => exact hsame rfl rfl

/-- Before the request is freed no chunk is issued twice. -/
theorem Sound.length_le (h : Sound a v) {n : Nat} (hret : v.returned.length ≤ n)
    (hrun : ∀ i x, v.run i = some x → v.returned.length < n) : (issues v.transfer).length ≤ n := by
  have hlen : ((issues v.transfer).map attempt).length = (issues v.transfer).length := List.length_map _
  rw [← hlen]
  by_cases hnone : ∀ i, v.run i = none
  · rw [h.ops.idle hnone, ← List.map_eq_flatMap, List.length_map]
    exact hret
  · obtain ⟨i, hi⟩ := not_forall.1 hnone
    obtain ⟨⟨task, pc⟩, hi⟩ := Option.ne_none_iff_exists'.1 hi
    have hlt := hrun i _ hi
    rw [h.ops.busy i task pc hi, List.length_append, ← List.map_eq_flatMap, List.length_map]
    unfold started
    split <;> simp <;> omega

end

/-! ### The verdict -/

/-- A task has failed, or the call itself. -/
def Failed (x : Transfer) : Prop := (∃ op ∈ issues x, good op = false) ∨ x.caller = .returned true false

/-- `wait_and_free_sync` has seen tasks missing. -/
def Blamed (x : Transfer) : Prop := x.waiter = .cancelling ∨ x.waiter = .freeing false ∨ x.waiter = .returned false

/-- Until the request is freed the books are kept, and what `wait_and_free_sync` saw was so. -/
structure Verdict (a : Request) (q : ρ) (v : Progress ρ ψ) : Prop where
  freed : v.transfer.freed = true → ∃ ok, v.transfer.waiter = .returned ok
  sound : v.transfer.freed = false → Sound a v
  settled : v.transfer.freed = false → v.transfer.sync.requestCompleted = true →
    Failed v.transfer ∨ v.transfer.sync.completedTasks = v.transfer.sync.totalTasks
  checking : v.transfer.waiter = .checking → v.transfer.sync.requestCompleted = true
  paid : Paid v.transfer → issues v.transfer = (a.taskArgs q).map fun arg => Sys.issueOp a arg true
  blamed : Blamed v.transfer → Failed v.transfer

section
variable {a : Request} {q : ρ} {act : Action ρ ψ} {v v' : Progress ρ ψ}

theorem Failed.move (h : Failed v.transfer) (hm : Move a q v act v') : Failed v'.transfer := by
  rcases h with ⟨op, hop, hg⟩ | hc
  · exact .inl ⟨op, hm.issues_isPrefix.subset hop, hg⟩
  · cases hm with
    | caller act pc posts hc' => exact absurd hc (hc' false)
    | register act hc' => exact absurd (hc'.symm.trans hc) (by simp)
    | single o hc' => exact absurd (hc'.symm.trans hc) (by simp)
    | firstPost o i hc' => exact absurd (hc'.symm.trans hc) (by simp)
    | fail => exact .inr rfl
    | stay i o task pc pc' x hr hs => exact .inr (hs.frame.1.trans hc)
    | leave i o task pc x hr hl => exact .inr (hl.frame.1.trans hc)
    | _ => exact .inr hc

theorem Move.freed (hm : Move a q v act v') (h : v.transfer.freed = true → ∃ ok, v.transfer.waiter = .returned ok)
    (hf : v'.transfer.freed = true) : ∃ ok, v'.transfer.waiter = .returned ok := by
  have hret : v.transfer.freed = true → ∃ ok, v'.transfer.waiter = .returned ok := by
    intro hf'
    obtain ⟨ok, hok⟩ := h hf'
    exact ⟨ok, hm.waiter_returned hok⟩
  cases hm with
  | free o ok hw => exact ⟨ok, rfl⟩
  | stay i o task pc pc' x hr hs => exact hret (hs.frame.2.2.1.symm.trans hf)
  | leave i o task pc x hr hl => exact hret (hl.frame.2.2.1.symm.trans hf)
  | _ => exact hret hf

theorem Move.freed_mono (hm : Move a q v act v') (hf : v'.transfer.freed = false) : v.transfer.freed = false := by
  cases hm with
  | free => cases hf
  | stay i o task pc pc' x hr hs => exact hs.frame.2.2.1.symm.trans hf
  | leave i o task pc x hr hl => exact hl.frame.2.2.1.symm.trans hf
  | _ => exact hf

end
end Progress

open Lts
namespace Sys
open Progress
variable {ρ ψ : Type} [DecidableEq ρ] [DecidableEq ψ] {args : ρ → Request} {s s' : Sys ρ ψ} {q : ρ}

namespace Linked

theorem returned_le (h : Linked args s) (q : ρ) : (s.progress q).returned.length ≤ ((args q).taskArgs q).length := by
  cases hacc : (s.pool.threads (.caller q)).accepted with
  | false =>
    rw [(h.unaccepted hacc).1]
    exact Nat.zero_le _
  | true =>
    obtain ⟨w, nodes, pre, suf, hof, hsplit, -, hexec⟩ := h.executed hacc
    rw [← hof.length, hsplit.append, List.length_append]
    rcases hexec with ⟨hret, -⟩ | ⟨task, hpre, -⟩
    · rw [hret]
      omega
    · rw [← hpre, List.length_append]
      omega

theorem returned_lt_args (h : Linked args s) {i : Fin 64} {x} (hi : (s.progress q).run i = some x) :
    (s.progress q).returned.length < ((args q).taskArgs q).length :=
  h.total (h.accepted_of_run hi) ▸ h.returned_lt hi

theorem issues_le (h : Linked args s) (hs : Sound (args q) (s.progress q)) :
    (issues (s.transfers q)).length ≤ ((args q).taskArgs q).length :=
  hs.length_le (h.returned_le q) fun _ _ hi => h.returned_lt_args hi

/-- As many successes as tasks: every task was issued, and succeeded. -/
theorem issues_eq (h : Linked args s) (hacc : (s.pool.threads (.caller q)).accepted = true)
    (hs : Sound (args q) (s.progress q))
    (hn : ((args q).taskArgs q).length ≤ (issues (s.transfers q)).countP good) :
    issues (s.transfers q) = ((args q).taskArgs q).map fun arg => issueOp (args q) arg true := by
  have hle := h.issues_le hs
  have hcount := List.countP_le_length (p := good) (l := issues (s.transfers q))
  have hgood : ∀ op ∈ issues (s.transfers q), good op = true := List.countP_eq_length.1 (by omega)
  have hattempt : (issues (s.transfers q)).map attempt = issues (s.transfers q) :=
    (List.map_congr_left fun op hop => attempt_eq (hgood op hop)).trans (List.map_id _)
  have hlen : (issues (s.transfers q)).length = ((args q).taskArgs q).length := by omega
  obtain ⟨w, nodes, pre, suf, hof, hsplit, hne, hexec⟩ := h.executed hacc
  -- the tasks issued are all the tasks
  suffices hall : (issues (s.transfers q)).map attempt =
      pre.flatMap fun task => [issueOp (args q) task.taskArg.userArg true] by
    have hpre := congrArg List.length hall
    rw [hattempt, hlen, ← hof.length, hsplit.append, ← List.map_eq_flatMap, List.length_map, List.length_append] at hpre
    obtain rfl : suf = [] := List.eq_nil_of_length_eq_zero (by omega)
    rw [hattempt] at hall
    rw [hall, ← List.append_nil pre, ← hsplit.append,
      hof.flatMap fun arg => [issueOp (args q) arg true], List.map_eq_flatMap]
  rcases hexec with ⟨hret, hrun⟩ | ⟨task, hpre, hrun⟩
  · refine (hs.ops.idle fun i => ?_).trans (by rw [hret])
    rcases eq_or_ne i w with rfl | hi
    · exact hrun
    · exact hne i hi
  · have hbusy := hs.ops.busy w task _ hrun
    have hlt := h.returned_lt_args hrun
    have hstarted : started task (s.taskPc w) = [task] := by
      have hl := congrArg List.length hbusy
      rw [List.length_map, show (issues (s.progress q).transfer).length = _ from hlen, List.length_append,
        ← List.map_eq_flatMap, List.length_map] at hl
      unfold started at hl ⊢
      split
      · rename_i hpc
        rw [if_pos hpc, List.map_nil, List.length_nil] at hl
        omega
      · rfl
    rw [hstarted] at hbusy
    refine hbusy.trans ?_
    rw [← hpre, List.flatMap_append]
    rfl

end Linked
/-- The chunks are issued in the order of the tasks. -/
theorem traced {as : List (Action ρ ψ)} (h : exec (step args) start as = some s) (q : ρ) :
    (s.progress q).Traced := by
  have hinv : Linked args s ∧ (s.progress q).Traced :=
    exec_inv' (I := fun s => Linked args s ∧ (s.progress q).Traced)
      (fun s act s' hi hs => ⟨hi.1.step hs, hi.2.step (hi.1.single q) ((hi.1.step hs).single q) (move hi.1 hs q)⟩)
      ⟨linked_start, traced_start⟩ h
  exact hinv.2

theorem not_issue (hl : Linked args s) (ht : (s.progress q).Traced)
    (hn : (issues (s.transfers q)).length = ((args q).taskArgs q).length) (i : Fin 64)
    (task : ThreadPoolTask (Tid ρ ψ) (TaskArg ρ) Empty) : (s.progress q).run i ≠ some (task, .issue) := by
  intro hi
  have hlt := hl.returned_lt_args hi
  have hlen := congrArg List.length (ht.busy i task .issue hi)
  rw [length_issues, if_pos rfl, List.append_nil, ← List.map_eq_flatMap, List.length_map] at hlen
  rw [← hn] at hlt
  exact absurd hlen.symm (Nat.ne_of_lt hlt)

theorem issues_frozen {act : Action ρ ψ} (hl : Linked args s) (ht : (s.progress q).Traced)
    (hm : Move (args q) q (s.progress q) act (s'.progress q))
    (hn : (issues (s.transfers q)).length = ((args q).taskArgs q).length) :
    issues (s'.transfers q) = issues (s.transfers q) := by
  have hno := not_issue hl ht hn
  change issues (s'.progress q).transfer = issues (s.progress q).transfer
  generalize s.progress q = v at hm hno
  generalize s'.progress q = v' at hm
  cases hm with
  | single | firstPost => exact issues_snoc_of_not rfl
  | stay i o task pc pc' x hr hs =>
    cases hs with
    | issue hf => exact absurd hr (hno i task)
    | _ => rfl
  | leave i o task pc x hr hl =>
    cases hl with
    | wild hf => exact absurd hr (hno i task)
    | record => exact issues_snoc_of_not rfl
    | stale => exact issues_snoc_of_not rfl
    | _ => rfl
  | _ => rfl

theorem verdict_start (q : ρ) : Verdict (args q) q ((start : Sys ρ ψ).progress q) where
  freed hf := by cases hf
  sound _ := by
    refine ⟨⟨fun _ => rfl, ?_⟩, fun _ => rfl, ?_, ?_⟩
    · intro i task pc hi
      cases hi
    · intro i task pc hi
      cases hi
    · intro i task hi
      cases hi
  settled _ hr := by cases hr
  checking hw := by cases hw
  paid hp := by rcases hp with hp | hp <;> cases hp
  blamed hb := by rcases hb with hb | hb | hb <;> cases hb

/-- The request is not completed before its tasks are accepted. -/
def Fresh (q : ρ) (s : Sys ρ ψ) : Prop :=
  (s.pool.threads (.caller q)).accepted = false → (s.transfers q).sync.requestCompleted = false

theorem fresh_step {act : Action ρ ψ} (h : Fresh q s) (hl : Linked args s) (hs : step args s act = some s') :
    Fresh q s' := by
  intro hacc
  have hacc₀ : (s.pool.threads (.caller q)).accepted = false := by
    by_contra ht
    have ht' : (s'.pool.threads (.caller q)).accepted = true := by
      rcases pool_step hs with hp | ⟨pa, hp⟩
      · rw [hp]; simpa using ht
      · exact PoolSys.accepted_step hl.tracked hp (by simpa using ht)
    rw [hacc] at ht'
    cases ht'
  have hrun : ∀ i, (s.progress q).run i = none := (hl.unaccepted hacc₀).2
  have hcaller : (s.progress q).transfer.caller ≠ .failing := by
    intro hc
    have hlink := (hl.request q).caller
    rw [show (s.transfers q).caller = .failing from hc] at hlink
    obtain ⟨-, ids, hids⟩ := hlink
    rw [hids] at hacc₀
    cases hacc₀
  have hm := move hl hs q
  have hz : (s.progress q).transfer.sync.requestCompleted = false := h hacc₀
  change (s'.progress q).transfer.sync.requestCompleted = false
  generalize s'.progress q = v' at hm
  cases hm with
  | fail act hc => exact absurd hc hcaller
  | stay i o task pc pc' x hr hs => rw [hrun i] at hr; cases hr
  | leave i o task pc x hr hl => rw [hrun i] at hr; cases hr
  | _ => exact hz

theorem verdict_step {act : Action ρ ψ} (h : Verdict (args q) q (s.progress q)) (hl : Linked args s)
    (ht : (s.progress q).Traced) (hfresh : Fresh q s) (hs : step args s act = some s') :
    Verdict (args q) q (s'.progress q) := by
  have hm := move hl hs q
  have hfrozen : (issues (s.progress q).transfer).length = ((args q).taskArgs q).length →
      issues (s'.progress q).transfer = issues (s.progress q).transfer := issues_frozen hl ht hm
  have hpaid : Paid (s.progress q).transfer → issues (s'.progress q).transfer =
      ((args q).taskArgs q).map fun arg => issueOp (args q) arg true := by
    intro hp
    have hi := h.paid hp
    exact (hfrozen (by rw [hi, List.length_map])).trans hi
  have hsound : (s'.progress q).transfer.freed = false → Sound (args q) (s'.progress q) := by
    intro hf
    have hf₀ := hm.freed_mono hf
    exact (h.sound hf₀).step (hl.single q) ((hl.step hs).single q) hm hf₀
  have hlt : ∀ {i x}, (s.progress q).run i = some x →
      (s.progress q).returned.length < (s.progress q).transfer.sync.totalTasks := fun hi => hl.returned_lt hi
  have hcheck : (s.progress q).transfer.waiter = .checking → (s.progress q).transfer.freed = false := by
    intro hw
    refine Bool.eq_false_iff.2 fun hf => ?_
    obtain ⟨ok, hok⟩ := h.freed hf
    rw [show (s.progress q).transfer.waiter = .checking from hw] at hok
    cases hok
  -- `wait_and_free_sync` has counted all tasks
  have hall : (s.progress q).transfer.waiter = .checking →
      (s.progress q).transfer.sync.completedTasks = (s.progress q).transfer.sync.totalTasks →
      issues (s.progress q).transfer = ((args q).taskArgs q).map fun arg => issueOp (args q) arg true := by
    intro hw he
    obtain ⟨hacc, -⟩ := hl.accepted_of_waiting (q := q) (by rw [show (s.transfers q).waiter = _ from hw]; simp)
    have hb := h.sound (hcheck hw)
    have htotal : (s.progress q).transfer.sync.totalTasks = ((args q).taskArgs q).length := hl.total hacc
    refine hl.issues_eq hacc hb ?_
    rw [← htotal, ← he]
    exact hb.le
  have hopen : (s.progress q).transfer.caller = .idle → (s.progress q).transfer.sync.requestCompleted = false := by
    intro hc
    have hcaller := (hl.request q).caller
    rw [show (s.transfers q).caller = .idle from hc] at hcaller
    exact hfresh (by rw [show s.pool.threads (.caller q) = .idle from hcaller]; rfl)
  -- the task that is about to be counted makes `completed_tasks` no more than the number of tasks
  have hmark : ∀ {i task}, (s.progress q).run i = some (task, .mark true) → (s.progress q).transfer.freed = false →
      (s.progress q).transfer.sync.completedTasks ≠ (s.progress q).transfer.sync.totalTasks := by
    intro i task hi hf he
    have hb := h.sound hf
    have hbusy : (s.progress q).transfer.sync.completedTasks + 1 = (issues (s.progress q).transfer).countP good := hb.busy i task _ hi
    have hle := hl.issues_le hb
    have hcount := List.countP_le_length (p := good) (l := issues (s.progress q).transfer)
    have htotal : (s.progress q).transfer.sync.totalTasks = ((args q).taskArgs q).length :=
      hl.total (hl.accepted_of_run hi)
    change (issues (s.progress q).transfer).length ≤ _ at hle
    omega
  have hbad : ∀ {i task}, (s.progress q).run i = some (task, .mark false) → (s.progress q).transfer.freed = false →
      Failed (s.progress q).transfer := by
    intro i task hi hf
    exact .inl ((h.sound hf).bad i task hi)
  have hfail : Failed (s.progress q).transfer → Failed (s'.progress q).transfer := fun hf => Failed.move hf hm
  refine ⟨hm.freed h.freed, hsound, ?_, ?_, ?_, ?_⟩
  · intro hf hr
    have hf₀ := hm.freed_mono hf
    have hold : (s.progress q).transfer.sync.requestCompleted = true →
        (s'.progress q).transfer.sync.completedTasks = (s.progress q).transfer.sync.completedTasks →
        (s'.progress q).transfer.sync.totalTasks = (s.progress q).transfer.sync.totalTasks →
        Failed (s'.progress q).transfer ∨
          (s'.progress q).transfer.sync.completedTasks = (s'.progress q).transfer.sync.totalTasks := by
      intro hr hc ht
      rw [hc, ht]
      exact (h.settled hf₀ hr).imp_left hfail
    clear hfrozen hpaid hsound hcheck hall hfresh ht hl hs
    generalize s.progress q = v at *
    generalize s'.progress q = v' at *
    cases hm with
    | register act hc =>
      have hz := hopen hc
      rw [show v.transfer.sync.requestCompleted = true from hr] at hz
      cases hz
    | fail act hc => exact .inl (.inr rfl)
    | stay i o task pc pc' x hrun hs =>
      cases hs with
      | mark ok r hi hf' =>
        cases ok with
        | false => exact .inl (hfail (hbad hrun hf₀))
        | true =>
          rcases Bool.or_eq_true_iff.1 hr with hr | hr
          · exact .inl (hfail ((h.settled hf₀ hr).resolve_right (hmark hrun hf₀)))
          · exact .inr (beq_iff_eq.1 hr)
      | _ => exact hold hr rfl rfl
    | leave i o task pc x hrun hl =>
      cases hl with
      | mark ok info hi hf' =>
        cases ok with
        | false => exact .inl (hfail (hbad hrun hf₀))
        | true =>
          rcases Bool.or_eq_true_iff.1 hr with hr | hr
          · exact .inl (hfail ((h.settled hf₀ hr).resolve_right (hmark hrun hf₀)))
          · exact .inr (beq_iff_eq.1 hr)
      | _ => exact hold hr rfl rfl
    | _ => exact hold hr rfl rfl
  · intro hw
    have hchecking := h.checking
    clear hfrozen hpaid hsound hcheck hall hfresh ht hl hs hmark hbad hfail hopen h
    generalize s.progress q = v at *
    generalize s'.progress q = v' at *
    cases hm with
    | wake o hw' hr => exact hr
    | fail => rfl
    | stay i o task pc pc' x hrun hs =>
      have hr := hchecking (hs.frame.2.1.symm.trans hw)
      cases hs with
      | mark ok r hi hf =>
        cases ok
        · rfl
        · exact Bool.or_eq_true_iff.2 (.inl hr)
      | _ => exact hr
    | leave i o task pc x hrun hl =>
      have hr := hchecking (hl.frame.2.1.symm.trans hw)
      cases hl with
      | mark ok info hi hf =>
        cases ok
        · rfl
        · exact Bool.or_eq_true_iff.2 (.inl hr)
      | _ => exact hr
    | wait | success | cancel | cancelled | free => cases hw
    | _ => exact hchecking hw
  · intro hp
    clear hfrozen hsound hfresh ht hl hs hmark hbad hfail hopen h
    generalize s.progress q = v at *
    generalize s'.progress q = v' at *
    cases hm with
    | success o hw he => exact hall hw he
    | free o ok hw =>
      refine hpaid (.inl ?_)
      rcases hp with hp | hp <;> cases hp
      exact hw
    | stay i o task pc pc' x hrun hs => exact hpaid (hp.imp hs.frame.2.1.symm.trans hs.frame.2.1.symm.trans)
    | leave i o task pc x hrun hl => exact hpaid (hp.imp hl.frame.2.1.symm.trans hl.frame.2.1.symm.trans)
    | wait | wake | cancel | cancelled => rcases hp with hp | hp <;> cases hp
    | _ => exact hpaid hp
  · intro hb
    have hsettled := h.settled
    have hchecking := h.checking
    have hblamed : Blamed (s.progress q).transfer → Failed (s'.progress q).transfer := fun hb => hfail (h.blamed hb)
    clear hfrozen hpaid hsound hall hfresh ht hl hs hmark hbad hopen h
    generalize s.progress q = v at *
    generalize s'.progress q = v' at *
    cases hm with
    | cancel o hw he => exact hfail ((hsettled (hcheck hw) (hchecking hw)).resolve_right he)
    | cancelled o hw => exact hblamed (.inl hw)
    | free o ok hw =>
      refine hblamed (.inr (.inl ?_))
      rcases hb with hb | hb | hb <;> cases hb
      exact hw
    | stay i o task pc pc' x hrun hs =>
      exact hblamed (hb.imp hs.frame.2.1.symm.trans (Or.imp hs.frame.2.1.symm.trans hs.frame.2.1.symm.trans))
    | leave i o task pc x hrun hl =>
      exact hblamed (hb.imp hl.frame.2.1.symm.trans (Or.imp hl.frame.2.1.symm.trans hl.frame.2.1.symm.trans))
    | wait | wake | success => rcases hb with hb | hb | hb <;> cases hb
    | _ => exact hblamed hb

theorem verdict {as : List (Action ρ ψ)} (h : exec (step args) start as = some s) (q : ρ) :
    Verdict (args q) q (s.progress q) := by
  have hinv := exec_inv' (I := fun s : Sys ρ ψ => Linked args s ∧ (s.progress q).Traced ∧ Fresh q s ∧
      Verdict (args q) q (s.progress q))
    (fun u act u' hi hs => ⟨hi.1.step hs, hi.2.1.step (hi.1.single q) ((hi.1.step hs).single q) (move hi.1 hs q),
      fresh_step hi.2.2.1 hi.1 hs, verdict_step hi.2.2.2 hi.1 hi.2.1 hi.2.2.1 hs⟩)
    ⟨linked_start, traced_start, fun _ => rfl, verdict_start q⟩ h
  exact hinv.2.2.2

theorem firstPosted_step {act : Action ρ ψ} (hl : Linked args s) (hs : step args s act = some s')
    (h : (args q).type = .send → (s.transfers q).caller = .returned true true →
      .firstPost (args q).firstWr true ∈ (s.transfers q).ops)
    (ht : (args q).type = .send) (hc : (s'.transfers q).caller = .returned true true) :
    .firstPost (args q).firstWr true ∈ (s'.transfers q).ops := by
  by_cases hc₀ : (s.transfers q).caller = .returned true true
  · exact (move hl hs q).ops_isPrefix.subset (h ht hc₀)
  have hset : ∀ {q₀ : ρ} {x : Transfer}, s'.transfers = Function.update s.transfers q₀ x →
      (q = q₀ → x.caller = .returned true true → .firstPost (args q).firstWr true ∈ x.ops) →
      .firstPost (args q).firstWr true ∈ (s'.transfers q).ops := by
    intro q₀ x he hx
    rw [he, Function.update_apply] at hc ⊢
    split at hc
    · rename_i hq
      rw [if_pos hq]
      exact hx hq hc
    · exact absurd hc hc₀
  cases step_cases hs with
  | firstPost q₀ o i hc₁ ht₁ =>
    refine hset rfl fun e hx => ?_
    subst e
    cases ho : o.ok with
    | false =>
      simp only [ho] at hx
      cases hx
    | true => exact List.mem_append_right _ (List.mem_singleton_self _)
  | recvPost q₀ o i pc hc₁ ht₁ hpc =>
    refine hset rfl fun e _ => ?_
    subst e
    rw [ht] at ht₁
    cases ht₁
  | reject q₀ o hc₁ => exact hset rfl fun _ hx => by cases hx
  | single q₀ o hc₁ => exact hset rfl fun _ hx => by cases hx
  | register q₀ o p hc₁ => exact hset rfl fun _ hx => by cases hx
  | registered q₀ o ids hc₁ => exact hset rfl fun _ hx => by cases hx
  | refused q₀ o ret hc₁ => exact hset rfl fun _ hx => by cases hx
  | fail q₀ o hc₁ => exact hset rfl fun _ hx => by cases hx
  | wait q₀ ok hc₁ => exact hset rfl fun e hx => by subst e; exact absurd hx hc₀
  | wake q₀ o hw => exact hset rfl fun e hx => by subst e; exact absurd hx hc₀
  | success q₀ o hw => exact hset rfl fun e hx => by subst e; exact absurd hx hc₀
  | cancel q₀ o p hw => exact hset rfl fun e hx => by subst e; exact absurd hx hc₀
  | cancelled q₀ o ret hw => exact hset rfl fun e hx => by subst e; exact absurd hx hc₀
  | free q₀ o ok hw => exact hset rfl fun e hx => by subst e; exact absurd hx hc₀
  | stay i o task q₀ pc x hpc hq hst =>
    exact hset rfl fun e hx => by subst e; exact absurd (hst.frame.1.symm.trans hx) hc₀
  | leave i o task q₀ x p hpc hq hl' hp =>
    exact hset rfl fun e hx => by subst e; exact absurd (hl'.frame.1.symm.trans hx) hc₀
  | _ => exact absurd hc hc₀

end Sys

namespace Request
variable {ρ : Type} (a : Request) (q : ρ)

/-- The chunks that the tasks of the request are for. -/
def taskChunks : List Nat :=
  match a.type with
  | .send => List.range' 1 (chunksNum a.len - 1)
  | .recv => List.range (chunksNum a.len)

/-- What the tasks of the request do when nothing fails. -/
def dueOps : List Op :=
  a.taskChunks.map fun i => match a.type with
    | .send => .post i (a.taskWr i) true
    | .recv => Sys.copyOp a i

variable {a q}

theorem taskArgs_chunkInfo : (a.taskArgs q).map (fun arg => arg.chunkInfo) = a.taskChunks := by
  unfold taskArgs taskChunks
  cases a.type with
  | send =>
    simp only [List.map_map, List.range'_eq_map_range]
    refine List.map_congr_left fun i _ => ?_
    exact Nat.add_comm i 1
  | recv =>
    rw [List.map_map]
    exact List.map_id _

theorem taskArgs_issueOp : (a.taskArgs q).map (fun arg => Sys.issueOp a arg true) = a.dueOps := by
  unfold taskArgs dueOps taskChunks
  cases a.type with
  | send =>
    simp only [List.map_map, List.range'_eq_map_range]
    refine List.map_congr_left fun i _ => ?_
    rw [Function.comp_apply, Function.comp_apply, Nat.add_comm 1 i]
    rfl
  | recv =>
    rw [List.map_map]
    rfl

end Request

namespace Sys
open Progress
variable {ρ ψ : Type} [DecidableEq ρ] [DecidableEq ψ] {args : ρ → Request} {s s' : Sys ρ ψ} {q : ρ}

/-- What the tasks have left so far belongs to the first tasks of the request. -/
theorem Linked.gathered_isPrefix {β : Type} {acc : Transfer → List β} (f : TaskArg ρ → β)
    {part : ThreadPoolTask (Tid ρ ψ) (TaskArg ρ) Empty → TaskPc → List β} (h : Linked args s)
    (hg : Gathers acc (fun task => [f task.taskArg.userArg]) part (s.progress q))
    (hpart : ∀ task pc, part task pc <+: [f task.taskArg.userArg]) :
    acc (s.transfers q) <+: ((args q).taskArgs q).map f := by
  cases hacc : (s.pool.threads (.caller q)).accepted with
  | false =>
    obtain ⟨hret, hrun⟩ := h.unaccepted hacc
    have hidle : acc (s.transfers q) = _ := hg.idle hrun
    rw [hidle, hret]
    exact List.nil_prefix
  | true =>
    obtain ⟨w, nodes, pre, suf, hof, hsplit, hne, hexec⟩ := h.executed hacc
    have hpre : pre.map (fun task => f task.taskArg.userArg) <+: ((args q).taskArgs q).map f := by
      rw [← hof.args, hsplit.append, List.map_map]
      exact (List.prefix_append _ _).map _
    refine List.IsPrefix.trans ?_ hpre
    rcases hexec with ⟨hret, hrun⟩ | ⟨task, hpre, hrun⟩
    · have hidle : acc (s.transfers q) = _ := hg.idle fun i => by
        rcases eq_or_ne i w with rfl | hi
        · exact hrun
        · exact hne i hi
      rw [hidle, hret, ← List.map_eq_flatMap]
    · have hbusy : acc (s.transfers q) = _ := hg.busy w task _ hrun
      rw [hbusy, ← hpre, List.map_append, ← List.map_eq_flatMap, List.prefix_append_right_inj]
      exact hpart task _

theorem Linked.chunks_isPrefix (h : Linked args s) (ht : (s.progress q).Traced) :
    (s.transfers q).ops.filterMap issued? <+: (args q).taskChunks := by
  rw [← filterMap_issued?, ← Request.taskArgs_chunkInfo (q := q)]
  refine h.gathered_isPrefix (fun arg => arg.chunkInfo) ht fun task pc => ?_
  split
  · exact List.nil_prefix
  · exact List.prefix_refl _

/-- At every moment the chunks that workers have sent or copied for a request are the first ones of its tasks,
in their order. -/
theorem issued_isPrefix {xs : List (Action ρ ψ × Found ρ ψ)} (h : exec (memStep args) start xs = some s)
    (hn : Along (memStep args) NoMisuse start xs) (q : ρ) :
    (s.transfers q).ops.filterMap issued? <+: (args q).taskChunks :=
  have hrun := exec_memStep h hn
  (linked hrun).chunks_isPrefix (traced hrun q)

/-- When `wait_and_free_sync` has returned 0, every task of the request has issued its chunk, in order and
successfully, and the caller of a send that returned 0 has posted the first one. -/
theorem wait_zero_issued {xs : List (Action ρ ψ × Found ρ ψ)} (h : exec (memStep args) start xs = some s)
    (hn : Along (memStep args) NoMisuse start xs) (hret : (s.transfers q).waiter = .returned true) :
    issues (s.transfers q) = (args q).dueOps ∧
      ((args q).type = .send → (s.transfers q).caller = .returned true true →
        .firstPost (args q).firstWr true ∈ (s.transfers q).ops) := by
  have h := exec_memStep h hn
  have hfirst := exec_inv' (I := fun s : Sys ρ ψ => Linked args s ∧
      ((args q).type = .send → (s.transfers q).caller = .returned true true →
        .firstPost (args q).firstWr true ∈ (s.transfers q).ops))
    (fun u act u' hi hs => ⟨hi.1.step hs, firstPosted_step hi.1 hs hi.2⟩)
    ⟨linked_start, fun _ hc => by cases hc⟩ h
  refine ⟨?_, hfirst.2⟩
  rw [← Request.taskArgs_issueOp (q := q)]
  exact (verdict h q).paid (.inr hret)

/-! ### A send of two chunks -/

/-- One byte more than a chunk, under key 7. -/
def twoChunks (_ : Fin 1) : Request := ⟨.send, 0, 0, 2097153, 7, 9⟩

/-- The send is posted and waited for, and the completion of chunk 0 wakes its key. -/
def firstSent : List (Action (Fin 1) (Fin 1)) :=
  .call 0 {} :: List.replicate 7 (.caller 0 {}) ++
    [.wait 0, .wakeUpTask 0 ⟨.send, 0, (twoChunks 0).firstWr.userCtx⟩ {}] ++ List.replicate 3 (.poller 0 {})

/-- Worker 0 posts chunk 1. -/
def bothSent : List (Action (Fin 1) (Fin 1)) :=
  firstSent ++ List.replicate 8 (.worker 0 {}) ++ List.replicate 3 (.waiter 0 {})

def bothSentEnd : Sys (Fin 1) (Fin 1) := last (step twoChunks) start bothSent (by decide +kernel)

/-- The post of chunk 1 fails, and `wait_and_free_sync` finds no task left to cancel. -/
def secondFailed : List (Action (Fin 1) (Fin 1)) :=
  firstSent ++ [.worker 0 {}, .worker 0 { ok := false }] ++ List.replicate 6 (.worker 0 {}) ++
    List.replicate 5 (.waiter 0 {})

def secondFailedEnd : Sys (Fin 1) (Fin 1) := last (step twoChunks) start secondFailed (by decide +kernel)

theorem bothSent_run : exec (memStep twoChunks) start (quiet bothSent) = some bothSentEnd :=
  (exec_quiet (by decide +kernel)).2 (exec_last _)

theorem bothSent_isPrefix : (bothSentEnd.transfers 0).ops.filterMap issued? <+: (twoChunks 0).taskChunks :=
  issued_isPrefix bothSent_run (by decide +kernel) 0

theorem bothSent_issued : issues (bothSentEnd.transfers 0) = (twoChunks 0).dueOps ∧
    (TaskType.send = .send → (bothSentEnd.transfers 0).caller = .returned true true →
      .firstPost (twoChunks 0).firstWr true ∈ (bothSentEnd.transfers 0).ops) :=
  wait_zero_issued bothSent_run (by decide +kernel) (by decide +kernel)

/-- When it has returned -1, an operation of the request has failed, or the call itself had. -/
theorem wait_failed {xs : List (Action ρ ψ × Found ρ ψ)} (h : exec (memStep args) start xs = some s)
    (hn : Along (memStep args) NoMisuse start xs) (hret : (s.transfers q).waiter = .returned false) :
    (∃ op ∈ issues (s.transfers q), good op = false) ∨ (s.transfers q).caller = .returned true false :=
  (verdict (exec_memStep h hn) q).blamed (.inr (.inr hret))

theorem secondFailed_blamed : (∃ op ∈ issues (secondFailedEnd.transfers 0), good op = false) ∨
    (secondFailedEnd.transfers 0).caller = .returned true false :=
  have hrun : exec (memStep twoChunks) start (quiet secondFailed) = some secondFailedEnd :=
    (exec_quiet (by decide +kernel)).2 (exec_last _)
  wait_failed hrun (by decide +kernel) (by decide +kernel)

end Sys
end OsTransport
