import OsTransport.Barrier
import OsTransport.StopAndWait

/-!
# One request after another under a key

No two requests under a key are live at once, each submission finds no context of the key and gets its own, and no
worker takes a task of it before. Then the table and the queues keep account of the live request alone (`Barred`), no
matter how many there were before: the context is bound to the worker that has the tasks and counts them
(`queued_counted`), and a wait that has seen tasks missing leaves nothing of its request (`cleaned_up`). A submission
that comes before the worker of the request before has counted its last task finds the context of that one
(`miscountedEnd_apart`, `leftBehindEnd_queued`).
-/

namespace OsTransport
open Lts

/-- Called, and neither refused nor through with `wait_and_free_sync`. -/
def Transfer.live (x : Transfer) : Bool :=
  match x.caller, x.waiter with
  | .idle, _ | .returned false _, _ | _, .returned _ => false
  | _, _ => true

theorem Transfer.live_iff {x : Transfer} : x.live = true ↔
    x.caller ≠ .idle ∧ (∀ ok, x.caller ≠ .returned false ok) ∧ ∀ ok, x.waiter ≠ .returned ok := by
  unfold live
  split <;> simp_all

/-- The tasks of `r` are attached, and their context is looked for. -/
def Pc.seeks {τ α κ : Type} (r : UInt32) : Pc τ α κ → Bool
  | .findCtx b .. => b.requestId == r
  | _ => false

/-- The tasks of `r` are attached and their context is not inserted. -/
def Pc.uncounted {τ α κ : Type} (r : UInt32) (pc : Pc τ α κ) : Bool := pc.seeks r || pc.inserts r

/-- A role inside an open window is the one of a submission that is not counted yet. -/
theorem Pc.uncounted_of_role {τ α κ : Type} {pc : Pc τ α κ} {r : UInt32} {i : Fin 64} {nodes : List (ThreadPoolTask τ α κ)}
    (h : pc.role r = .attached i nodes ∨ pc.role r = .missed i nodes) :
    pc.uncounted r = true ∧ ∃ b, pc.submit? = some b ∧ b.requestId = r := by
  cases pc with
  | findCtx b j nodes' | insert b j nodes' =>
    by_cases hb : b.requestId = r
    · exact ⟨by simp [uncounted, seeks, inserts, hb], b, rfl, hb⟩
    · simp [role, hb] at h
  | bump b nodes' x => by_cases hb : b.requestId = r <;> simp [role, hb] at h
  | cancelFind r' | cancelRead r' | cancelQueue r' | cancelUpdate r' =>
    by_cases hr : r' = r <;> simp [role, hr] at h
  | _ => simp [role] at h

namespace Progress
variable {ρ ψ : Type} {a : Request} {q : ρ} {act : Action ρ ψ} {v v' : Progress ρ ψ}

/-- `wait_and_free_sync` returns after it has freed the request. -/
theorem Move.was_freeing (hm : Move a q v act v') {ok : Bool} (hw : v'.transfer.waiter = .returned ok) :
    v.transfer.waiter = .returned ok ∨ v.transfer.waiter = .freeing ok := by
  cases hm with
  | free o ok' hw' =>
    cases hw
    exact .inr hw'
  | stay i o task pc pc' x hr hs => exact .inl (hs.frame.2.1.symm.trans hw)
  | leave i o task pc x hr hl => exact .inl (hl.frame.2.1.symm.trans hw)
  | wait | wake | success | cancel | cancelled => cases hw
  | _ => exact .inl hw

theorem Move.blamed (hm : Move a q v act v') (hb : Blamed v.transfer) : Blamed v'.transfer := by
  cases hm with
  | free o ok hw =>
    rcases hb with hb | hb | hb <;> cases hw.symm.trans hb
    exact .inr (.inr rfl)
  | cancelled o hw => exact .inr (.inl rfl)
  | stay i o task pc pc' x hr hs => rwa [Blamed, hs.frame.2.1]
  | leave i o task pc x hr hl => rwa [Blamed, hl.frame.2.1]
  | wait hc hw | wake o hw | success o hw | cancel o hw => rcases hb with hb | hb | hb <;> cases hw.symm.trans hb
  | _ => exact hb

end Progress

namespace Pool
variable {τ α κ : Type} [DecidableEq τ] {p p' : Pool τ α κ} {t : τ} {o : Oracle} {pc pc' : Pc τ α κ}

theorem threadStep_cancels (h : ThreadStep p t o pc p' pc') : p'.hist.cancelled = p.hist.cancelled ∨
    ∃ i r, pc.inCancel r = true ∧ p'.hist.cancelled = p.hist.cancelled ++ [(i, r, p.queued i r)] := by
  cases h with
  | cancelQueue r x i hm => exact .inr ⟨i, r, beq_self_eq_true r, rfl⟩
  | cancelUpdate => split <;> exact .inl rfl
  | cancelUpdateDangling => split <;> exact .inl rfl
  | _ => exact .inl rfl

end Pool

instance decidableTakes {τ α κ : Type} [DecidableEq τ] [DecidableEq α] [DecidableEq κ] (p : Pool τ α κ) (r : UInt32)
    (i : Fin 64) : Decidable (p.Takes r i) :=
  inferInstanceAs (Decidable (_ ∧ _ ∧ _ ∧ _))

namespace Sys
open Progress
variable {ρ ψ : Type} [DecidableEq ρ] [DecidableEq ψ] {args : ρ → Request} {s s' : Sys ρ ψ} {q q' : ρ} {r : UInt32}
  {act : Action ρ ψ}

/-- No two requests under the key `r` are live at once. -/
def OneLive (args : ρ → Request) (r : UInt32) (s : Sys ρ ψ) : Prop :=
  ∀ q q', (args q).key = r → (args q').key = r → (s.transfers q).live = true → (s.transfers q').live = true → q = q'

/-- A submission under `r` finds no context and gets memory for its own; no worker takes a task of it before. -/
def Orderly (r : UInt32) (s : Sys ρ ψ) : Action ρ ψ → Prop
  | .caller q o => ((s.pool.threads (.caller q)).seeks r = true → s.pool.pool.findReqContext r = none) ∧
      ((s.pool.threads (.caller q)).inserts r = true → o.ok = true)
  | .worker i _ => s.pool.pool.Takes r i → ∀ q, (s.pool.threads (.caller q)).uncounted r = false
  | _ => True

/-! ### Who acts under a key -/

/-- The step of the pool in an action, and who takes it. -/
inductive Acts (args : ρ → Request) (s : Sys ρ ψ) : Action ρ ψ → Act (Tid ρ ψ) (TaskArg ρ) Empty → Prop
  | register (q : ρ) (o : Oracle) (hc : (s.transfers q).caller = .idle) :
      Acts args s (.call q o) (.call (.caller q) (.submitBatch ((args q).batch q)) o)
  | submit (q : ρ) (o : Oracle) (hc : (s.transfers q).caller = .registering) :
      Acts args s (.caller q o) (.thread (.caller q) o)
  | cancel (q : ρ) (o : Oracle) (hw : (s.transfers q).waiter = .checking) :
      Acts args s (.waiter q o) (.call (.waiter q) (.cancel (args q).key) o)
  | cancelling (q : ρ) (o : Oracle) (hw : (s.transfers q).waiter = .cancelling) :
      Acts args s (.waiter q o) (.thread (.waiter q) o)
  | wakeUp (k : ψ) (cr : UrmaCr) (o : Oracle) (r : UInt32) :
      Acts args s (.wakeUpTask k cr o) (.call (.poller k) (.wakeUp r) o)
  | poller (k : ψ) (o : Oracle) : Acts args s (.poller k o) (.thread (.poller k) o)
  | worker (i : Fin 64) (o : Oracle) : Acts args s (.worker i o) (.worker i o)

theorem step_acts (hs : step args s act = some s') :
    s'.pool = s.pool ∨ ∃ pa, Acts args s act pa ∧ s.pool.step pa = some s'.pool := by
  cases step_cases hs with
  | register q o p hc hlen hlt ho hp => exact .inr ⟨_, .register q o hc, hp⟩
  | submit q o p hc hp => exact .inr ⟨_, .submit q o hc, hp⟩
  | cancel q o p hw he hp => exact .inr ⟨_, .cancel q o hw, hp⟩
  | cancelling q o p hw hp => exact .inr ⟨_, .cancelling q o hw, hp⟩
  | wakeUpTask k cr o r p hr hp => exact .inr ⟨_, .wakeUp k cr o r, hp⟩
  | poller k o p hp => exact .inr ⟨_, .poller k o, hp⟩
  | worker i o p hpc hp => exact .inr ⟨_, .worker i o, hp⟩
  | leave i o task q x p hpc hq hl hp => exact .inr ⟨_, .worker i o, hp⟩
  | _ => exact .inl rfl

namespace Linked

/-- Outside of its submission a caller stands nowhere in the pool. -/
theorem caller_done (h : Linked args s) (hc : (s.transfers q).caller ≠ .registering) :
    s.pool.threads (.caller q) = .idle ∨ ∃ ret, s.pool.threads (.caller q) = .done ret := by
  have hcaller := (h.request q).caller
  cases hpc : (s.transfers q).caller with
  | idle =>
    rw [hpc] at hcaller
    exact .inl hcaller
  | registering => exact absurd hpc hc
  | posting i =>
    rw [hpc] at hcaller
    exact .inr ⟨_, hcaller.2.choose_spec⟩
  | failing =>
    rw [hpc] at hcaller
    exact .inr ⟨_, hcaller.2.choose_spec⟩
  | returned handle ok =>
    rw [hpc] at hcaller
    cases handle with
    | true => exact .inr ⟨_, hcaller.2.choose_spec⟩
    | false => exact hcaller.imp_right fun ⟨ret, hret, _⟩ => ⟨ret, hret⟩

theorem submitting (h : Linked args s) {t : Tid ρ ψ} {b : Submit (TaskArg ρ) Empty}
    (hb : (s.pool.threads t).submit? = some b) :
    ∃ q, t = .caller q ∧ (s.transfers q).caller = .registering ∧ b.requestId = (args q).key := by
  cases t with
  | waiter q =>
    have hw := (h.request q).waiter.cancels
    generalize s.pool.threads (.waiter q) = pc at hb hw
    cases pc <;> first | exact hw.elim | cases hb
  | poller k =>
    have hw := h.poller k
    generalize s.pool.threads (.poller k) = pc at hb hw
    cases pc <;> first | exact hw.elim | cases hb
  | caller q =>
    have hc : (s.transfers q).caller = .registering := by
      by_contra hc
      rcases h.caller_done hc with hidle | ⟨ret, hret⟩
      · rw [hidle] at hb
        cases hb
      · rw [hret] at hb
        cases hb
    have hcaller := (h.request q).caller
    rw [hc] at hcaller
    obtain ⟨b', hsub, hmade⟩ := hcaller
    obtain rfl := hmade.submit b hb
    exact ⟨q, rfl, hc, hsub.requestId⟩

theorem cancelling (h : Linked args s) (hq : (s.pool.threads (.waiter q)).inCancel r = true) :
    (s.transfers q).waiter = .cancelling := by
  have hlink := (h.request q).waiter
  have hne : s.pool.threads (.waiter q) ≠ .idle := by
    intro hidle
    rw [hidle] at hq
    cases hq
  have hnd : ∀ n, s.pool.threads (.waiter q) ≠ .done (.int n) := by
    intro n hn
    rw [hn] at hq
    cases hq
  cases hw : (s.transfers q).waiter with
  | cancelling => rfl
  | freeing ok =>
    rw [hw] at hlink
    cases ok with
    | true => exact absurd hlink hne
    | false => exact absurd hlink.choose_spec (hnd _)
  | returned ok =>
    rw [hw] at hlink
    cases ok with
    | true => exact absurd hlink hne
    | false => exact absurd hlink.choose_spec (hnd _)
  | _ =>
    rw [hw] at hlink
    exact absurd hlink hne

/-- A call under `r` that is inside its submission. -/
theorem live_of_submitting (h : Linked args s) {t : Tid ρ ψ} {b : Submit (TaskArg ρ) Empty}
    (hb : (s.pool.threads t).submit? = some b) (hid : b.requestId = r) :
    ∃ q, t = .caller q ∧ (args q).key = r ∧ (s.transfers q).caller = .registering ∧ (s.transfers q).live = true := by
  obtain ⟨q, rfl, hc, hkey⟩ := h.submitting hb
  refine ⟨q, rfl, hkey.symm.trans hid, hc, Transfer.live_iff.2 ⟨by simp [hc], by simp [hc], fun ok hw => ?_⟩⟩
  rcases (h.request q).waited with hidle | ⟨ok', hret⟩
  · cases hidle.symm.trans hw
  · cases hc.symm.trans hret

theorem caller_isDone (h : Linked args s) (hw : (s.transfers q).waiter ≠ .idle) :
    (s.pool.threads (.caller q)).isDone = true := by
  obtain ⟨ok, hc⟩ := (h.request q).waited.resolve_left hw
  have hcaller := (h.request q).caller
  rw [hc] at hcaller
  obtain ⟨-, ids, hids⟩ := hcaller
  rw [hids]
  rfl

theorem live_of_waiting (h : Linked args s) (hw : (s.transfers q).waiter ≠ .idle)
    (hne : ∀ ok, (s.transfers q).waiter ≠ .returned ok) : (s.transfers q).live = true := by
  obtain ⟨ok, hc⟩ := (h.request q).waited.resolve_left hw
  exact Transfer.live_iff.2 ⟨by simp [hc], by simp [hc], hne⟩

/-- No task of a request is queued that was not accepted, or whose wait has seen all tasks counted. -/
theorem not_queued (h : Linked args s) (hv : Verdict (args q) q (s.progress q)) (ht : (s.progress q).Traced)
    (hq : (s.pool.threads (.caller q)).accepted = false ∨ Paid (s.transfers q)) (i : Fin 64) :
    (s.pool.pool.lane (.caller q)).queued i = [] := by
  rcases hq with hacc | hp
  · exact ((h.tracked _).unused hacc).queued i
  have hw : (s.transfers q).waiter ≠ .idle := by
    intro hidle
    rcases hp with hp | hp <;> cases hidle.symm.trans hp
  obtain ⟨w, nodes, pre, suf, hof, hsplit⟩ := h.split (h.accepted_of_waiting hw).1
  have hle := (issues_le_taken h ht).1
  have hpaid : issues (s.transfers q) = _ := hv.paid hp
  -- as many tasks were taken as there are
  have hsuf : suf = [] := by
    have htaken : s.pool.pool.hist.taken.countP (fun e => e.2.owner == .caller q) = pre.length := by
      rw [List.countP_eq_length_filter]
      exact (congrArg List.length hsplit.taken).trans (List.length_map _)
    rw [hpaid, List.length_map, htaken, ← hof.length, hsplit.append, List.length_append] at hle
    exact List.eq_nil_of_length_eq_zero (by omega)
  rcases eq_or_ne i w with rfl | hi
  · rcases hsplit.rest with hr | ⟨hr, -⟩
    · exact hr.trans hsuf
    · exact hr
  · exact (hsplit.elsewhere i hi).1

/-- What is drained of the key is drained of the request. -/
theorem lane_of_drained (h : Linked args s) (hd : s.pool.pool.Drained (args q).key) (i : Fin 64) :
    (s.pool.pool.lane (.caller q)).queued i = [] ∧ (s.pool.pool.lane (.caller q)).running i = [] := by
  refine ⟨List.eq_nil_iff_forall_not_mem.2 fun task hm => ?_, List.eq_nil_iff_forall_not_mem.2 fun task hm => ?_⟩
  · obtain ⟨hm, hown⟩ := List.mem_filter.1 hm
    obtain ⟨q', ho, hid, -⟩ := h.task (.inl hm)
    obtain rfl : q = q' := Tid.caller.inj ((beq_iff_eq.1 hown).symm.trans ho)
    have hq := (hd i).1
    rw [Pool.queued, List.filter_eq_nil_iff] at hq
    exact hq task hm (beq_iff_eq.2 hid)
  · obtain ⟨hm, hown⟩ := List.mem_filter.1 hm
    have hrun := run_none_of_drained h hd i
    refine run_eq_none.1 hrun task ?_ (beq_iff_eq.1 hown)
    cases hpc : (s.pool.pool.workers i).pc with
    | func task' =>
      rw [hpc] at hm
      rw [List.mem_singleton.1 hm]
    | _ =>
      rw [hpc] at hm
      cases hm

end Linked

/-- The requests that have used `r`, and the one that uses it. -/
structure Barred (args : ρ → Request) (r : UInt32) (s : Sys ρ ψ) : Prop where
  run : ∃ as, exec (step args) start as = some s
  cancels : CancelsOwn args s
  single : OneLive args r s
  account : (s.pool.view r).Account
  drained : ∀ q, (args q).key = r → (s.pool.threads (.waiter q)).isDone = true →
    (s.transfers q).waiter ≠ .returned false → s.pool.pool.Drained r
  gone : ∀ q, (args q).key = r → (s.transfers q).waiter = .returned false →
    ∀ i, (s.pool.pool.lane (.caller q)).queued i = [] ∧ (s.pool.pool.lane (.caller q)).running i = []
  spared : ∀ q, (args q).key = r → ¬ Blamed (s.transfers q) →
    ∀ e ∈ s.pool.pool.hist.cancelled, ∀ task ∈ e.2.2, task.owner ≠ .caller q

namespace Barred
variable {pa : Act (Tid ρ ψ) (TaskArg ρ) Empty}

theorem linked (h : Barred args r s) : Linked args s :=
  let ⟨_, hexec⟩ := h.run
  Sys.linked hexec

/-- No task is queued of a request under `r` that is not live. -/
theorem not_queued (h : Barred args r s) (hkey : (args q).key = r) (hlive : (s.transfers q).live ≠ true) (i : Fin 64) :
    (s.pool.pool.lane (.caller q)).queued i = [] := by
  obtain ⟨as, hexec⟩ := h.run
  have hcaller := (h.linked.request q).caller
  rw [ne_eq, Transfer.live_iff] at hlive
  by_cases hidle : (s.transfers q).caller = .idle
  · refine h.linked.not_queued (verdict hexec q) (traced hexec q) (.inl ?_) i
    rw [hidle] at hcaller
    rw [show s.pool.threads (.caller q) = .idle from hcaller]
    rfl
  by_cases hret : ∃ ok, (s.transfers q).caller = .returned false ok
  · refine h.linked.not_queued (verdict hexec q) (traced hexec q) (.inl ?_) i
    obtain ⟨ok, hret⟩ := hret
    rw [hret] at hcaller
    rcases hcaller with hpc | ⟨ret, hpc, hne⟩
    · rw [hpc]
      rfl
    · rw [hpc]
      cases ret with
      | ids ids => exact absurd rfl (hne ids)
      | _ => rfl
  · have hw : ∃ ok, (s.transfers q).waiter = .returned ok := by
      by_contra hw
      exact hlive ⟨hidle, not_exists.1 hret, not_exists.1 hw⟩
    obtain ⟨ok, hw⟩ := hw
    cases ok with
    | true => exact h.linked.not_queued (verdict hexec q) (traced hexec q) (.inr (.inr hw)) i
    | false => exact (h.gone q hkey hw i).1

/-- A live request under `r` that has been accepted leaves no other one room. -/
theorem not_submitting (h : Barred args r s) (hkey : (args q).key = r) (hlive : (s.transfers q).live = true)
    (hc : (s.pool.threads (.caller q)).isDone = true) {t : Tid ρ ψ} {b : Submit (TaskArg ρ) Empty}
    (hb : (s.pool.threads t).submit? = some b) : b.requestId ≠ r := by
  intro hid
  obtain ⟨q', rfl, hkey', -, hlive'⟩ := h.linked.live_of_submitting hb hid
  obtain rfl := h.single q q' hkey hkey' hlive hlive'
  obtain ⟨ret, hret⟩ := Pc.isDone_iff.1 hc
  rw [hret] at hb
  cases hb

theorem not_open (h : Barred args r s) (hkey : (args q).key = r) (hlive : (s.transfers q).live = true)
    (hc : (s.pool.threads (.caller q)).isDone = true) : ¬ (s.pool.view r).Open := by
  rintro ⟨t, i, nodes, ht⟩
  obtain ⟨-, b, hb, hid⟩ := Pc.uncounted_of_role ht
  exact h.not_submitting hkey hlive hc hb hid

theorem not_attach (h : Barred args r s) (hkey : (args q).key = r) (hlive : (s.transfers q).live = true)
    (hc : (s.pool.threads (.caller q)).isDone = true) : ¬ s.pool.Marks r pa .attach := by
  rintro ⟨t, o, b, i, nodes, -, hpc, hid⟩
  exact h.not_submitting hkey hlive hc (b := b) (by rw [hpc]; rfl) hid

/-- A submission under `r` comes when all is over with the requests before it. -/
theorem alone (h : Barred args r s) {t : Tid ρ ψ} {b : Submit (TaskArg ρ) Empty} {i : Fin 64}
    {nodes : List (ThreadPoolTask (Tid ρ ψ) (TaskArg ρ) Empty)} (hpc : s.pool.threads t = .attach b i nodes)
    (hid : b.requestId = r) : (∀ i, (s.pool.view r).queued i = []) ∧ ∀ u, (s.pool.view r).role u = .none := by
  obtain ⟨q, rfl, hkey, -, hlive⟩ := h.linked.live_of_submitting (b := b) (by rw [hpc]; rfl) hid
  constructor
  · intro j
    refine List.eq_nil_iff_forall_not_mem.2 fun task hm => ?_
    obtain ⟨hm, htask⟩ := List.mem_filter.1 hm
    obtain ⟨q', hown, hid', -, hacc⟩ := h.linked.task (.inl hm)
    have hkey' : (args q').key = r := hid'.symm.trans (beq_iff_eq.1 htask)
    have hlane : task ∈ (s.pool.pool.lane (.caller q')).queued j := List.mem_filter.2 ⟨hm, beq_iff_eq.2 hown⟩
    by_cases hlive' : (s.transfers q').live = true
    · obtain rfl := h.single q q' hkey hkey' hlive hlive'
      rw [hpc] at hacc
      cases hacc
    · rw [h.not_queued hkey' hlive' j] at hlane
      cases hlane
  · intro u
    by_contra hne
    have hrole : (s.pool.threads u).role r ≠ .none := hne
    have hcancel : (s.pool.threads u).inCancel r = true → False := by
      intro hin
      obtain ⟨q', rfl, hkey'⟩ := h.cancels u r hin
      have hw := h.linked.cancelling hin
      have hlive' := h.linked.live_of_waiting (q := q') (by simp [hw]) (by simp [hw])
      obtain rfl := h.single q q' hkey hkey' hlive hlive'
      obtain ⟨ret, hret⟩ := Pc.isDone_iff.1 (h.linked.caller_isDone (q := q) (by simp [hw]))
      rw [hret] at hpc
      cases hpc
    rcases Pc.submit_of_role hrole with ⟨b', hb, hid'⟩ | hc | ⟨x, hc⟩ | ⟨x, j, hc⟩ | ⟨x, n, hc⟩
    · obtain ⟨q', rfl, hkey', -, hlive'⟩ := h.linked.live_of_submitting hb hid'
      obtain rfl := h.single q q' hkey hkey' hlive hlive'
      rw [hpc] at hrole
      exact hrole rfl
    all_goals exact hcancel (by simp [hc, Pc.inCancel])

/-- In an orderly run the account of the key is kept. -/
theorem careful (h : Barred args r s) (ho : Orderly r s act) (hpa : Acts args s act pa) : PoolSys.Careful r s.pool pa := by
  intro m hm
  cases m with
  | plain => trivial
  | take =>
    obtain ⟨i, o, rfl, htakes⟩ := hm
    cases hpa
    have hnone := ho htakes
    rintro ⟨t, j, nodes, ht⟩
    obtain ⟨hun, b, hb, -⟩ := Pc.uncounted_of_role ht
    obtain ⟨q, rfl, -⟩ := h.linked.submitting hb
    rw [hnone q] at hun
    cases hun
  | attach =>
    obtain ⟨t, o, b, i, nodes, rfl, hpc, hid⟩ := hm
    exact h.alone hpc hid
  | hit =>
    obtain ⟨t, o, b, i, nodes, rfl, hpc, hid, hne⟩ := hm
    obtain ⟨q, rfl, -⟩ := h.linked.submitting (b := b) (by rw [hpc]; rfl)
    cases hpa
    have hnone := ho.1 (by simp [hpc, Pc.seeks, hid])
    rw [Pool.findReqContext_eq, List.head?_eq_none_iff] at hnone
    exact hne hnone
  | noContext =>
    obtain ⟨t, o, b, i, nodes, rfl, hpc, hid, hok⟩ := hm
    obtain ⟨q, rfl, -⟩ := h.linked.submitting (b := b) (by rw [hpc]; rfl)
    cases hpa
    rw [ho.2 (by simp [hpc, Pc.inserts, hid])] at hok
    cases hok
  | cancel =>
    obtain ⟨t, o, rfl⟩ := hm
    cases hpa with
    | cancel q o hw =>
      have hlive := h.linked.live_of_waiting (q := q) (by simp [hw]) (by simp [hw])
      exact h.not_open rfl hlive (h.linked.caller_isDone (by simp [hw]))

/-- A cancel that has returned leaves nothing of the key, while the request is not given back. -/
theorem drained_step (h : Barred args r s) (hpa : Acts args s act pa) (hp : s.pool.step pa = some s'.pool) (hkey : (args q).key = r)
    (hdone : (s'.pool.threads (.waiter q)).isDone = true) (hw : (s.transfers q).waiter ≠ .returned false) :
    s'.pool.pool.Drained r := by
  have hlink := (h.linked.request q).waiter
  have hstep : (s.transfers q).live = true → (s.transfers q).waiter ≠ .idle → s.pool.pool.Drained r → s'.pool.pool.Drained r :=
    fun hlive hne hd => PoolSys.drained_step hd h.linked.tracked (h.not_attach hkey hlive (h.linked.caller_isDone hne)) hp
  by_cases hbefore : (s.pool.threads (.waiter q)).isDone = true
  · have hnot : (s.transfers q).waiter ≠ .idle ∧ ∀ ok, (s.transfers q).waiter ≠ .returned ok := by
      obtain ⟨ret, hret⟩ := Pc.isDone_iff.1 hbefore
      refine ⟨fun hidle => ?_, fun ok hok => ?_⟩
      · rw [hidle] at hlink
        cases hret.symm.trans hlink
      · cases ok with
        | true =>
          rw [hok] at hlink
          cases hret.symm.trans hlink
        | false => exact hw hok
    exact hstep (h.linked.live_of_waiting hnot.1 hnot.2) hnot.1 (h.drained q hkey hbefore hw)
  · -- it is this step that returns
    cases hpa with
    | cancelling q' o hw' =>
      rcases eq_or_ne q q' with rfl | hne
      · have hlive := h.linked.live_of_waiting (q := q) (by simp [hw']) (by simp [hw'])
        rw [hw'] at hlink
        refine hstep hlive (by simp [hw']) ?_
        exact PoolSys.drained_of_return h.account (h.not_open hkey hlive (h.linked.caller_isDone (by simp [hw'])))
          (PoolSys.thread_threads hp) (hkey ▸ hlink.2) hdone
      · rw [PoolSys.threads_of_ne hp (by simpa [Act.tid?] using hne.symm)] at hdone
        exact absurd hdone hbefore
    | cancel q' o hw' =>
      rcases eq_or_ne q q' with rfl | hne
      · rw [(PoolSys.call_threads hp).2, PoolSys.enter, if_pos h.linked.running] at hdone
        cases hdone
      · rw [PoolSys.threads_of_ne hp (by simpa [Act.tid?] using hne.symm)] at hdone
        exact absurd hdone hbefore
    | _ =>
      rw [PoolSys.threads_of_ne hp (by simp [Act.tid?])] at hdone
      exact absurd hdone hbefore

/-- Nothing comes back of a request that has been given back. -/
theorem gone_step (h : Barred args r s) (hkey : (args q).key = r) (hs : step args s act = some s')
    (hw : (s'.transfers q).waiter = .returned false) (i : Fin 64) :
    (s'.pool.pool.lane (.caller q)).queued i = [] ∧ (s'.pool.pool.lane (.caller q)).running i = [] := by
  have hwas : (s.transfers q).waiter = .freeing false ∨ (s.transfers q).waiter = .returned false :=
    ((move h.linked hs q).was_freeing hw).symm
  have hempty : ∀ i, (s.pool.pool.lane (.caller q)).queued i = [] ∧ (s.pool.pool.lane (.caller q)).running i = [] := by
    rcases hwas with hfree | hret
    · have hd := h.drained q hkey (h.linked.cancel_returned (.inl hfree)) (by simp [hfree])
      exact h.linked.lane_of_drained (hkey ▸ hd)
    · exact h.gone q hkey hret
  rcases step_acts hs with hp | ⟨pa, -, hp⟩
  · rw [hp]
    exact hempty i
  rcases PoolSys.lane_step hp (fun u => (h.linked.tracked u).made) (.caller q) with ⟨hstep, -⟩ | ⟨-, b, j, nodes, hpc, -⟩
  · exact ⟨hstep.queued_nil (fun j => (hempty j).1) i, hstep.running_nil (fun j => (hempty j).1) (fun j => (hempty j).2) i⟩
  · have hne : (s.transfers q).waiter ≠ .idle := by rcases hwas with hw | hw <;> simp [hw]
    obtain ⟨ret, hret⟩ := Pc.isDone_iff.1 (h.linked.caller_isDone hne)
    cases hret.symm.trans hpc

/-- Only its own wait cancels tasks of a request. -/
theorem spared_step (h : Barred args r s) (hkey : (args q).key = r) (hs : Sys.step args s act = some s')
    (hb : ¬ Blamed (s'.transfers q)) : ∀ e ∈ s'.pool.pool.hist.cancelled, ∀ task ∈ e.2.2, task.owner ≠ .caller q := by
  have hb₀ : ¬ Blamed (s.transfers q) := fun hblamed => hb ((move h.linked hs q).blamed hblamed)
  have hold := h.spared q hkey hb₀
  rcases step_acts hs with hp | ⟨pa, -, hp⟩
  · rwa [hp]
  generalize s'.pool = p' at hp
  cases PoolSys.step_cases hp with
  | call t c o ht => exact hold
  | worker i o p hstep =>
    change ∀ e ∈ p.hist.cancelled, _
    rwa [Pool.workerStep_cancelled hstep]
  | thread t o p pc hstep =>
    change ∀ e ∈ p.hist.cancelled, _
    rcases Pool.threadStep_cancels hstep with hsame | ⟨i, r', hin, hc⟩
    · rwa [hsame]
    rw [hc]
    intro e he task htask hown
    rcases List.mem_append.1 he with he | he
    · exact hold e he task htask hown
    obtain rfl := List.mem_singleton.1 he
    -- the cancel is one of the key, and of another live request
    obtain ⟨hm, hid⟩ := List.mem_filter.1 htask
    obtain ⟨q₀, hown', hid', -⟩ := h.linked.task (.inl hm)
    obtain rfl : q = q₀ := Tid.caller.inj (hown.symm.trans hown')
    obtain ⟨q', rfl, hkey'⟩ := h.cancels t r' hin
    have hr : r' = r := (beq_iff_eq.1 hid).symm.trans (hid'.trans hkey)
    have hw := h.linked.cancelling hin
    have hlive' := h.linked.live_of_waiting (q := q') (by simp [hw]) (by simp [hw])
    by_cases hlive : (s.transfers q).live = true
    · obtain rfl := h.single q q' hkey (hkey'.trans hr) hlive hlive'
      exact hb₀ (.inl hw)
    · have hlane : task ∈ (s.pool.pool.lane (.caller q)).queued i := List.mem_filter.2 ⟨hm, beq_iff_eq.2 hown⟩
      rw [h.not_queued hkey hlive i] at hlane
      cases hlane

theorem step (h : Barred args r s) (hone : OneLive args r s') (ho : Orderly r s act) (hs : Sys.step args s act = some s') :
    Barred args r s' := by
  obtain ⟨as, hexec⟩ := h.run
  have hpool := step_acts hs
  refine ⟨⟨as ++ [act], exec_snoc.2 ⟨s, hexec, hs⟩⟩, cancelsOwn_step h.cancels hs, hone, ?_, fun q hkey hdone hw => ?_,
    fun q hkey hw => h.gone_step hkey hs hw, fun q hkey hb => h.spared_step hkey hs hb⟩
  · rcases hpool with hp | ⟨pa, hpa, hp⟩
    · rw [hp]
      exact h.account
    · exact PoolSys.account_step h.account h.linked.tracked (h.careful ho hpa) hp
  · have hw₀ : (s.transfers q).waiter ≠ .returned false := fun hret => hw ((move h.linked hs q).waiter_returned hret)
    rcases hpool with hp | ⟨pa, hpa, hp⟩
    · rw [hp] at hdone ⊢
      exact h.drained q hkey hdone hw₀
    · exact h.drained_step hpa hp hkey hdone hw₀

end Barred

theorem barred_start (args : ρ → Request) (r : UInt32) : Barred args r (start : Sys ρ ψ) where
  run := ⟨[], rfl⟩
  cancels u r hu := by cases hu
  single q q' _ _ hq := by cases hq
  account := PoolSys.account_start r
  drained q _ hdone := by cases hdone
  gone q _ hw := by cases hw
  spared q _ _ e he := by cases he

/-! ### A submission that nothing has woken -/

/-- No worker is woken for the tasks of `q`. -/
def NotWoken (args : ρ → Request) (q : ρ) (s : Sys ρ ψ) : Action ρ ψ → Prop
  | .worker i _ => s.pool.pool.Takes (args q).key i → (s.pool.pool.lane (.caller q)).queued i = []
  | _ => True

instance decidableNotWoken (q : ρ) (s : Sys ρ ψ) (act : Action ρ ψ) : Decidable (NotWoken args q s act) :=
  match act with
  | .worker .. => inferInstanceAs (Decidable (_ → _))
  | .call .. | .wait .. | .caller .. | .waiter .. | .wakeUpTask .. | .poller .. => .isTrue trivial

theorem untaken_step (hl : Linked args s) (ha : NotWoken args q s act) (hs : step args s act = some s')
    (h : (s.pool.pool.lane (.caller q)).taken = []) : (s'.pool.pool.lane (.caller q)).taken = [] := by
  rcases step_acts hs with hp | ⟨pa, hpa, hp⟩
  · rwa [hp]
  have hold : ∀ e ∈ s.pool.pool.hist.taken, e.2.owner ≠ .caller q := fun e he hown => by
    have hm : e ∈ (s.pool.pool.lane (.caller q)).taken := List.mem_filter.2 ⟨he, beq_iff_eq.2 hown⟩
    rw [h] at hm
    cases hm
  suffices hnew : ∀ e ∈ s'.pool.pool.hist.taken, e.2.owner ≠ .caller q from
    List.filter_eq_nil_iff.2 fun e he => by simpa using hnew e he
  generalize s'.pool = p' at hp
  cases PoolSys.step_cases hp with
  | call t c o ht => exact hold
  | thread t o p pc hstep =>
    change ∀ e ∈ p.hist.taken, _
    rwa [Pool.threadStep_taken hstep]
  | worker i o p hstep =>
    change ∀ e ∈ p.hist.taken, _
    cases hpa
    cases hstep with
    | take task rest hpc hr hpop =>
      intro e he hown
      rcases List.mem_append.1 he with he | he
      · exact hold e he hown
      obtain rfl := List.mem_singleton.1 he
      replace hown : task.owner = .caller q := hown
      have hm : task ∈ (s.pool.pool.workers i).queue := (mem_popFirst hpop).2 (.inl rfl)
      have hsat := popFirst_sat hpop
      have hslot : (s.pool.pool.workers i).pendingReq = task.requestId := (beq_iff_eq.1 hsat).symm
      obtain ⟨q', hown', hid, -⟩ := hl.task (.inl hm)
      obtain rfl : q = q' := Tid.caller.inj (hown.symm.trans hown')
      have hnil := ha ⟨hpc, hslot.trans hid, by rw [← hid, ← hslot]; exact hr, by
        have hmem : task ∈ s.pool.pool.queued i (args q).key := List.mem_filter.2 ⟨hm, beq_iff_eq.2 hid⟩
        intro hempty
        rw [hempty] at hmem
        cases hmem⟩
      have hlane : task ∈ (s.pool.pool.lane (.caller q)).queued i := List.mem_filter.2 ⟨hm, beq_iff_eq.2 hown⟩
      rw [hnil] at hlane
      cases hlane
    | _ => exact hold

/-- The queue of a worker has of the key just the tasks of the live request. -/
theorem Barred.queued_eq (h : Barred args r s) (hkey : (args q).key = r) (hlive : (s.transfers q).live = true) (i : Fin 64) :
    s.pool.pool.queued i r = (s.pool.pool.lane (.caller q)).queued i := by
  refine List.filter_congr fun task hm => Bool.eq_iff_iff.2 ?_
  rw [beq_iff_eq, beq_iff_eq]
  obtain ⟨q', hown, hid, -⟩ := h.linked.task (.inl hm)
  constructor
  · intro hr
    have hkey' := hid.symm.trans hr
    by_cases hlive' : (s.transfers q').live = true
    · obtain rfl := h.single q q' hkey hkey' hlive hlive'
      exact hown
    · have hlane : task ∈ (s.pool.pool.lane (.caller q')).queued i := List.mem_filter.2 ⟨hm, beq_iff_eq.2 hown⟩
      rw [h.not_queued hkey' hlive' i] at hlane
      cases hlane
  · intro ho
    obtain rfl : q = q' := Tid.caller.inj (ho.symm.trans hown)
    exact hid.trans hkey

/-- The submission of a request has returned, no task of it was taken, and its wait has not cancelled: the key has one
context, which is bound to the worker that has all its tasks, and counts them. -/
theorem Barred.counted (h : Barred args r s) (hkey : (args q).key = r)
    (hret : ∃ ids, s.pool.threads (.caller q) = .done (.ids ids)) (hb : ¬ Blamed (s.transfers q))
    (ht : (s.pool.pool.lane (.caller q)).taken = []) (hidle : ∀ i, (s.pool.view r).duty i = .none) :
    ∃ c, s.pool.pool.ctxs r = [c] ∧
      (s.pool.pool.queued c.workerIdx r).map (fun task => task.taskArg.userArg) = (args q).taskArgs q ∧
      c.pendingCount = Int32.ofNat ((args q).taskArgs q).length := by
  obtain ⟨ids, hret⟩ := hret
  have hacc : (s.pool.threads (.caller q)).accepted = true := by rw [hret]; rfl
  obtain ⟨w, nodes, pre, suf, hof, hsplit⟩ := h.linked.split hacc
  have hnodes : nodes ≠ [] := by
    obtain ⟨b, w', nodes', pre', suf', -, hlen, hsplit'⟩ := (h.linked.tracked _).split hacc
    have hatt := hsplit.attached.symm.trans hsplit'.attached
    simp only [List.cons.injEq, Prod.mk.injEq, and_true] at hatt
    rw [hatt.2]
    intro hnil
    rw [hnil] at hlen
    exact b.args_ne (List.eq_nil_of_length_eq_zero hlen.symm)
  have hpre : pre = [] := List.map_eq_nil_iff.1 (hsplit.taken.symm.trans ht)
  have hsuf : suf = nodes := by rw [hsplit.append, hpre, List.nil_append]
  have hqueue : (s.pool.pool.lane (.caller q)).queued w = nodes := by
    rcases hsplit.rest with hr | ⟨-, r', -, hm⟩
    · exact hr.trans hsuf
    · obtain ⟨e, he, heq⟩ := List.mem_map.1 hm
      have hnil : e.2.2.filter (fun task => task.owner == .caller q) = [] :=
        List.filter_eq_nil_iff.2 fun task htask => by simpa using h.spared q hkey hb e he task htask
      refine absurd ?_ hnodes
      rw [← hsuf, ← hnil]
      exact (congrArg (fun e => e.2.2) heq).symm
  have hlive : (s.transfers q).live = true := by
    by_contra hlive
    exact hnodes (hqueue.symm.trans (h.not_queued hkey hlive w))
  have hno := h.not_open hkey hlive (by rw [hret]; rfl)
  have hview : (s.pool.view r).queued w = nodes := (h.queued_eq hkey hlive w).trans hqueue
  cases h.account.stage with
  | settled hq hres hr => exact absurd (hview.symm.trans (hq w)) hnodes
  | cancelling u c n hc hn hu hq hd hr => exact absurd (hview.symm.trans (hq w)) hnodes
  | window u w' nodes' hres hu => exact absurd ⟨u, w', nodes', hu.imp_right And.left⟩ hno
  | live w' c d hc hcw hne hn hlt hdw hq hd hr =>
    obtain rfl : w = w' := by
      by_contra hne'
      exact hnodes (hview.symm.trans (hq w hne'))
    obtain rfl : d = 0 := by simpa [hidle] using hdw
    refine ⟨c, hc, ?_, ?_⟩
    · rw [hcw]
      exact (congrArg _ hview).trans hof.args
    · rw [hn, hview, hof.length]
      rfl

/-! ### Runs -/

/-- The step leaves no two requests under `r` live at once. -/
def OneAtATime (args : ρ → Request) (r : UInt32) (s : Sys ρ ψ) (x : Action ρ ψ × Found ρ ψ) : Prop :=
  ∀ s' ∈ s.memStep args x, OneLive args r s'

instance decidableOneLive [Fintype ρ] (args : ρ → Request) (r : UInt32) (s : Sys ρ ψ) : Decidable (OneLive args r s) :=
  inferInstanceAs (Decidable (∀ _ _, _ → _ → _ → _ → _))

instance decidableOneAtATime [Fintype ρ] (args : ρ → Request) (r : UInt32) (s : Sys ρ ψ) (x : Action ρ ψ × Found ρ ψ) :
    Decidable (OneAtATime args r s x) :=
  inferInstanceAs (Decidable (∀ _ ∈ _, _))

instance decidableOrderly [Fintype ρ] (r : UInt32) (s : Sys ρ ψ) (act : Action ρ ψ) : Decidable (Orderly r s act) :=
  match act with
  | .caller .. => inferInstanceAs (Decidable (_ ∧ _))
  | .worker .. => inferInstanceAs (Decidable (_ → ∀ _, _ = _))
  | .call .. | .wait .. | .waiter .. | .wakeUpTask .. | .poller .. => .isTrue trivial

section
variable {x : Action ρ ψ × Found ρ ψ} {xs : List (Action ρ ψ × Found ρ ψ)}
  (ha : Along (memStep args) (fun s x => OneAtATime args r s x ∧ Orderly r s x.1 ∧ NoMisuse s x) start xs)
  (h : exec (memStep args) start xs = some s)
include ha h

theorem barred : Barred args r s := by
  refine exec_inv (I := Barred args r) (fun s x s' hi hx hs => ?_) (barred_start args r) ha h
  have hone := hx.1 s' hs
  rw [memStep_of_noMisuse hx.2.2] at hs
  exact hi.step hone hx.2.1 hs

/-- When `wait_and_free_sync` has seen tasks missing and is about to free the request, no task of it is queued or at work
and its key has no context; and none of its tasks is queued or executed afterwards. -/
theorem cleaned_up (hkey : (args q).key = r) :
    ((s.transfers q).waiter = .freeing false → s.pool.pool.Drained r ∧ s.pool.pool.ctxs r = []) ∧
    ((s.transfers q).waiter = .returned false → ∀ i, (s.pool.pool.lane (.caller q)).queued i = [] ∧
      (s.pool.pool.lane (.caller q)).running i = []) := by
  have hb := barred ha h
  refine ⟨fun hw => ?_, hb.gone q hkey⟩
  have hd := hb.drained q hkey (hb.linked.cancel_returned (.inl hw)) (by simp [hw])
  have hlive := hb.linked.live_of_waiting (q := q) (by simp [hw]) (by simp [hw])
  have hno := hb.not_open hkey hlive (hb.linked.caller_isDone (by simp [hw]))
  refine ⟨hd, PoolSys.ctxs_of_drained hb.account hno hd fun u => ?_⟩
  -- another cancel of the key would be one of another live request
  by_contra hcor
  have hin := Pc.inCancel_of_correcting (by simpa using hcor)
  obtain ⟨q', rfl, hkey'⟩ := hb.cancels u r hin
  have hw' := hb.linked.cancelling hin
  have hlive' := hb.linked.live_of_waiting (q := q') (by simp [hw']) (by simp [hw'])
  obtain rfl := hb.single q q' hkey hkey' hlive hlive'
  cases hw.symm.trans hw'

/-- The submission of a request has returned and no worker was woken for it: when its wait has not cancelled and no
worker is executing, the key has one context, which is bound to the worker that has all tasks of the request, and
counts them. -/
theorem queued_counted (hkey : (args q).key = r) (hwoken : Along (memStep args) (fun s x => NotWoken args q s x.1) start xs)
    (hret : ∃ ids, s.pool.threads (.caller q) = .done (.ids ids)) (hb : ¬ Blamed (s.transfers q))
    (hidle : ∀ i, (s.pool.pool.workers i).pc = .wait ∨ (s.pool.pool.workers i).pc = .exited) :
    ∃ c, s.pool.pool.ctxs r = [c] ∧
      (s.pool.pool.queued c.workerIdx r).map (fun task => task.taskArg.userArg) = (args q).taskArgs q ∧
      c.pendingCount = Int32.ofNat ((args q).taskArgs q).length := by
  have htaken : (s.pool.pool.lane (.caller q)).taken = [] := by
    refine (exec_inv (I := fun s : Sys ρ ψ => Linked args s ∧ (s.pool.pool.lane (.caller q)).taken = [])
      (fun s x s' hi hx hs => ?_) ⟨linked_start, rfl⟩ (hwoken.and (ha.mono fun _ _ hx => hx.2.2)) h).2
    rw [memStep_of_noMisuse hx.2] at hs
    exact ⟨hi.1.step hs, untaken_step hi.1 hx.1 hs hi.2⟩
  refine (barred ha h).counted hkey hret hb htaken fun i => ?_
  change (s.pool.pool.workers i).pc.duty r = .none
  rcases hidle i with hpc | hpc <;> rw [hpc] <;> rfl

end

/-! ### A second send under a key -/

/-- Two sends under key 7, one after the other, beside one under key 5. -/
def sevenTwice : Fin 3 → Request
  | 0 => ⟨.send, 0, 0, 2097153, 7, 9⟩
  | 1 => ⟨.send, 0, 0, 4194305, 7, 9⟩
  | 2 => ⟨.send, 0, 0, 2097153, 5, 5⟩

/-- The first send of key 7 is on worker 1, since the one of key 5 was on worker 0, and its wait has returned 0. Worker 1
has counted its task and not yet looked for the context. -/
def lastWaited : List (Action (Fin 3) (Fin 2)) :=
  .call 2 {} :: List.replicate 7 (.caller 2 {}) ++ .call 0 {} :: List.replicate 8 (.caller 0 {}) ++
    .wakeUpTask 0 ⟨.send, 0, (sevenTwice 2).firstWr.userCtx⟩ {} :: List.replicate 3 (.poller 0 {}) ++
    List.replicate 9 (.worker 0 {}) ++ .wakeUpTask 1 ⟨.send, 0, (sevenTwice 0).firstWr.userCtx⟩ {} ::
    List.replicate 3 (.poller 1 {}) ++ List.replicate 3 (.worker 1 {}) ++ .wait 0 :: List.replicate 3 (.waiter 0 {})

/-- The second send of key 7 goes to worker 0 and is counted in the context that is bound to worker 1, which then goes on. -/
def miscounted : List (Action (Fin 3) (Fin 2)) :=
  lastWaited ++ .call 1 {} :: List.replicate 7 (.caller 1 {}) ++ List.replicate 4 (.worker 1 {})

/-- Its first post fails, and its wait cancels. -/
def leftBehind : List (Action (Fin 3) (Fin 2)) :=
  miscounted ++ [.caller 1 { ok := false }, .caller 1 {}] ++ .wait 1 :: List.replicate 6 (.waiter 1 {})

def miscountedEnd : Sys (Fin 3) (Fin 2) := last (step sevenTwice) start miscounted (by decide +kernel)

/-- Both tasks of the second send are on worker 0, the context of key 7 is bound to worker 1. -/
theorem miscountedEnd_apart : exec (memStep sevenTwice) start (quiet miscounted) = some miscountedEnd ∧
    Along (memStep sevenTwice) (OneAtATime sevenTwice 7) start (quiet miscounted) ∧
    (miscountedEnd.transfers 0).waiter = .returned true ∧ (miscountedEnd.transfers 1).caller = .posting 0 ∧
    (∀ i, (miscountedEnd.pool.pool.workers i).pc = .wait) ∧
    (miscountedEnd.pool.pool.queued 0 7).map (fun task => task.taskArg.userArg) = (sevenTwice 1).taskArgs 1 ∧
    (miscountedEnd.pool.pool.ctxs 7).map (fun c => (c.workerIdx, c.pendingCount)) = [(1, 2)] :=
  ⟨(exec_quiet (by decide +kernel)).2 (exec_last _), by decide +kernel, by decide +kernel, by decide +kernel,
    by decide +kernel, by decide +kernel, by decide +kernel⟩

def leftBehindEnd : Sys (Fin 3) (Fin 2) := last (step sevenTwice) start leftBehind (by decide +kernel)

/-- The second wait is about to free its request, whose tasks are still queued. -/
theorem leftBehindEnd_queued : exec (memStep sevenTwice) start (quiet leftBehind) = some leftBehindEnd ∧
    Along (memStep sevenTwice) (OneAtATime sevenTwice 7) start (quiet leftBehind) ∧
    (leftBehindEnd.transfers 1).waiter = .freeing false ∧
    (leftBehindEnd.pool.pool.queued 0 7).map (fun task => task.taskArg.userArg) = (sevenTwice 1).taskArgs 1 ∧
    (leftBehindEnd.pool.pool.ctxs 7).map (fun c => (c.workerIdx, c.pendingCount)) = [(1, 2)] :=
  ⟨(exec_quiet (by decide +kernel)).2 (exec_last _), by decide +kernel, by decide +kernel, by decide +kernel,
    by decide +kernel⟩

/-- Worker 1 is done with the first send before the second one comes. -/
def tidy : List (Action (Fin 3) (Fin 2)) :=
  lastWaited ++ List.replicate 6 (.worker 1 {}) ++ .call 1 {} :: List.replicate 7 (.caller 1 {})

def tidyEnd : Sys (Fin 3) (Fin 2) := last (step sevenTwice) start tidy (by decide +kernel)

theorem tidyEnd_counted : ∃ c, tidyEnd.pool.pool.ctxs 7 = [c] ∧
    (tidyEnd.pool.pool.queued c.workerIdx 7).map (fun task => task.taskArg.userArg) = (sevenTwice 1).taskArgs 1 ∧
    c.pendingCount = Int32.ofNat ((sevenTwice 1).taskArgs (1 : Fin 3)).length :=
  have hrun : exec (memStep sevenTwice) start (quiet tidy) = some tidyEnd := (exec_quiet (by decide +kernel)).2 (exec_last _)
  queued_counted (q := 1) (by decide +kernel) hrun rfl (by decide +kernel) ⟨[3, 4], by decide +kernel⟩
    (by unfold Blamed; decide +kernel) (by decide +kernel)

def tidyFailed : List (Action (Fin 3) (Fin 2)) :=
  tidy ++ [.caller 1 { ok := false }, .caller 1 {}] ++ .wait 1 :: List.replicate 7 (.waiter 1 {})

def tidyFailedEnd : Sys (Fin 3) (Fin 2) := last (step sevenTwice) start tidyFailed (by decide +kernel)

theorem tidyFailedEnd_cleaned : (tidyFailedEnd.transfers 1).waiter = .freeing false ∧
    ((tidyFailedEnd.transfers 1).waiter = .freeing false → tidyFailedEnd.pool.pool.Drained 7 ∧ tidyFailedEnd.pool.pool.ctxs 7 = []) ∧
    ((tidyFailedEnd.transfers 1).waiter = .returned false → ∀ i, (tidyFailedEnd.pool.pool.lane (.caller 1)).queued i = [] ∧
      (tidyFailedEnd.pool.pool.lane (.caller 1)).running i = []) :=
  have hrun : exec (memStep sevenTwice) start (quiet tidyFailed) = some tidyFailedEnd :=
    (exec_quiet (by decide +kernel)).2 (exec_last _)
  ⟨by decide +kernel, cleaned_up (by decide +kernel) hrun rfl⟩

end Sys
end OsTransport
