import OsTransport.WakeLedger
import OsTransport.Verdict

/-!
# A wake-up for every chunk

Workers issue a chunk of a request only with a wake-up of its key, so the requests that use a key have issued
together at most as many chunks as completion records naming the key were handled (`issued_le_handled`).
-/

namespace OsTransport
open Lts
namespace Sys
open Progress
variable {ρ ψ : Type} [DecidableEq ρ] [DecidableEq ψ] {args : ρ → Request} {s s' : Sys ρ ψ} {q : ρ} {r : UInt32}

omit [DecidableEq ρ] [DecidableEq ψ] in
/-- The call of `os_transport_wake_up_task` that wakes `r`. -/
def wakers (r : UInt32) : Action ρ ψ → List (Tid ρ ψ)
  | .wakeUpTask k cr _ => if cr.requestId? = some r then [.poller k] else []
  | _ => []

/-- A completion record that names `r` is handled. -/
def handles (r : UInt32) : Action ρ ψ → Bool
  | .wakeUpTask _ cr _ => cr.requestId? == some r
  | _ => false

theorem wakers_step {l : List (Tid ρ ψ)} {act : Action ρ ψ} (h : PoolSys.Wakers r l s.pool) (hs : step args s act = some s') :
    PoolSys.Wakers r (l ++ wakers r act) s'.pool := by
  have hpool : ∀ {pa p}, s.pool.step pa = some p → wakers r act = PoolSys.wakers r pa →
      PoolSys.Wakers r (l ++ wakers r act) p := by
    intro pa p hp hw
    rw [hw]
    exact h.step hp
  have hsame : wakers r act = [] → PoolSys.Wakers r (l ++ wakers r act) s.pool := by
    intro hw
    rwa [hw, List.append_nil]
  cases step_cases hs with
  | register q o p hc hlen hlt ho hp => exact hpool hp rfl
  | submit q o p hc hp => exact hpool hp rfl
  | cancel q o p hw he hp => exact hpool hp rfl
  | cancelling q o p hw hp => exact hpool hp rfl
  | wakeUpTask k cr o r' p hr hp =>
    refine hpool hp ?_
    simp only [wakers, PoolSys.wakers, hr, Option.some.injEq]
  | unknown k cr o hr =>
    refine hsame ?_
    simp [wakers, hr]
  | poller k o p hp => exact hpool hp rfl
  | worker i o p hpc hp => exact hpool hp rfl
  | leave i o task q x p hpc hq hl hp => exact hpool hp rfl
  | _ => exact hsame rfl

theorem callers {as : List (Action ρ ψ)} (h : exec (step args) start as = some s) (r : UInt32) :
    PoolSys.Wakers r (as.flatMap (wakers r)) s.pool :=
  exec_inv_acts (s := start) (I := fun as (s : Sys ρ ψ) => PoolSys.Wakers r (as.flatMap (wakers r)) s.pool) (l := []) (C := fun _ _ => True)
    (fun l s act s' hi _ hs => by simpa using wakers_step hi hs) (PoolSys.wakers_start r)
    (Along.of_forall fun _ _ => trivial) h

omit [DecidableEq ρ] [DecidableEq ψ] in
theorem length_wakers (r : UInt32) (as : List (Action ρ ψ)) : (as.flatMap (wakers r)).length = as.countP (handles r) := by
  induction as with
  | nil => rfl
  | cons act as ih =>
    rw [List.flatMap_cons, List.length_append, ih, List.countP_cons, Nat.add_comm]
    congr 1
    cases act with
    | wakeUpTask k cr o =>
      simp only [wakers, handles, beq_iff_eq]
      split <;> rfl
    | _ => rfl

/-- As many tasks of an id are taken at most as completion records naming it are handled. -/
theorem takes_le_handled {as : List (Action ρ ψ)} (h : exec (step args) start as = some s) (r : UInt32) :
    s.pool.pool.takesOf r ≤ as.countP (handles r) := by
  by_cases hr : r = 0
  · subst hr
    have hzero := exec_inv' (I := fun s : Sys ρ ψ => s.pool.pool.takesOf 0 = 0) (fun s act s' hi hs => by
      rcases pool_step hs with hp | ⟨pa, hp⟩
      · rwa [hp]
      · exact PoolSys.takesOf_zero_step hi hp) rfl h
    rw [hzero]
    exact Nat.zero_le _
  · have hbal := exec_inv' (I := fun s : Sys ρ ψ => ∃ n, s.pool.pool.Balanced r n) (fun s act s' hi hs => by
      obtain ⟨n, hi⟩ := hi
      rcases pool_step hs with hp | ⟨pa, hp⟩
      · rw [hp]
        exact ⟨n, hi⟩
      · exact ⟨_, PoolSys.wakes_balanced_step hi hr hp⟩) ⟨0, PoolSys.wakes_balanced_start hr⟩ h
    obtain ⟨n, hbal⟩ := hbal
    rw [← length_wakers]
    calc s.pool.pool.takesOf r ≤ s.pool.pool.wakesOf r := by
          rw [hbal]
          omega
      _ = _ := (callers h r).count
      _ ≤ _ := List.countP_le_length

theorem issues_le_taken (h : Linked args s) (ht : (s.progress q).Traced) :
    (issues (s.transfers q)).length ≤ s.pool.pool.hist.taken.countP (fun e => e.2.owner == .caller q) ∧
      ∀ e ∈ s.pool.pool.hist.taken, e.2.owner = .caller q → e.2.requestId = (args q).key := by
  have hcount : s.pool.pool.hist.taken.countP (fun e => e.2.owner == .caller q) = (s.pool.pool.lane (.caller q)).taken.length := by
    rw [List.countP_eq_length_filter]
    rfl
  have hlen : (issues (s.transfers q)).length = ((workerOps (s.progress q).transfer).filterMap issued?).length :=
    length_issues.symm
  rw [hcount, hlen]
  cases hacc : (s.pool.threads (.caller q)).accepted with
  | false =>
    obtain ⟨hret, hrun⟩ := h.unaccepted hacc
    have hun := (h.tracked (.caller q)).unused hacc
    refine ⟨?_, fun e he ho => ?_⟩
    · have hidle : (workerOps (s.progress q).transfer).filterMap issued? = _ := ht.idle hrun
      rw [hidle, hret]
      exact Nat.zero_le _
    · have hmem : e ∈ (s.pool.pool.lane (.caller q)).taken := List.mem_filter.2 ⟨he, by simpa using ho⟩
      rw [hun.taken] at hmem
      cases hmem
  | true =>
    obtain ⟨w, nodes, pre, suf, hof, hsplit, hne, hexec⟩ := h.executed hacc
    rw [hsplit.taken, List.length_map]
    refine ⟨?_, fun e he ho => ?_⟩
    · rcases hexec with ⟨hret, hrun⟩ | ⟨task, hpre, hrun⟩
      · have hidle : (workerOps (s.progress q).transfer).filterMap issued? = _ := ht.idle fun i => by
          rcases eq_or_ne i w with rfl | hi
          · exact hrun
          · exact hne i hi
        rw [hidle, hret, ← List.map_eq_flatMap, List.length_map]
      · have hbusy : (workerOps (s.progress q).transfer).filterMap issued? = _ := ht.busy w task _ hrun
        rw [hbusy, ← hpre, List.length_append, ← List.map_eq_flatMap, List.length_map, List.length_append]
        split <;> simp
    · have hmem : e ∈ (s.pool.pool.lane (.caller q)).taken := List.mem_filter.2 ⟨he, by simpa using ho⟩
      rw [hsplit.taken] at hmem
      obtain ⟨task, htask, rfl⟩ := List.mem_map.1 hmem
      exact hof.requestId task (hsplit.append ▸ List.mem_append_left _ htask)

theorem issues_le_handled {as : List (Action ρ ψ)} (h : exec (step args) start as = some s) (q : ρ) :
    (issues (s.transfers q)).length ≤ as.countP (handles (args q).key) := by
  obtain ⟨hle, hkey⟩ := issues_le_taken (linked h) (traced h q)
  refine hle.trans (le_trans ?_ (takes_le_handled h (args q).key))
  refine List.countP_mono_left fun e he hown => ?_
  exact beq_iff_eq.2 (hkey e he (beq_iff_eq.1 hown))

/-- At every moment the requests that use a key, sends or receives, one after another or at once, have issued
together at most as many chunks as completion records naming the key were handled. -/
theorem issued_le_handled {xs : List (Action ρ ψ × Found ρ ψ)} (h : exec (memStep args) start xs = some s)
    (hn : Along (memStep args) NoMisuse start xs) {qs : List ρ} (hnd : qs.Nodup) (hkey : ∀ q ∈ qs, (args q).key = r) :
    (qs.map fun q => (issues (s.transfers q)).length).sum ≤ (xs.map Prod.fst).countP (handles r) := by
  have h := exec_memStep h hn
  have hl := linked h
  have htaken := fun q => issues_le_taken hl (traced h q)
  calc (qs.map fun q => (issues (s.transfers q)).length).sum
      ≤ (qs.map fun q => s.pool.pool.hist.taken.countP fun e => e.2.owner == .caller q).sum :=
        List.sum_le_sum fun q _ => (htaken q).1
    _ ≤ s.pool.pool.takesOf r := by
        refine List.sum_countP_le hnd (fun e _ q _ q' _ hq hq' => ?_) fun e he q hq hown => ?_
        · rw [beq_iff_eq] at hq hq'
          exact Tid.caller.inj (hq.symm.trans hq')
        · rw [beq_iff_eq] at hown ⊢
          exact ((htaken q).2 e he hown).trans (hkey q hq)
    _ ≤ _ := takes_le_handled h r

/-- In the run of `bothSent` one completion was handled and one chunk issued. -/
theorem bothSent_le_handled :
    ([0].map fun q => (issues (bothSentEnd.transfers q)).length).sum ≤
      ((quiet bothSent).map Prod.fst).countP (handles 7) :=
  issued_le_handled bothSent_run (by decide +kernel) (List.nodup_singleton _) fun _ _ => rfl

end Sys
end OsTransport
