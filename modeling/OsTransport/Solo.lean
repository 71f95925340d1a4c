import OsTransport.Account

/-!
# A request submitted once

When only the call `t` submits tasks under the id `r`, gets memory for their context, and cancels of `r`
come after it has returned, the account of `r` is kept by every interleaving (`Solo.step`). While `t` has
not inserted the context nothing can wake or cancel its tasks (`Unwoken`). After that the one context of
`r` counts what is left of the request (`solo_counted`), and the pointers to it that `worker_process_task`
and `update_context_after_cancel` write through are good (`solo_pointers`).
-/

namespace OsTransport

namespace Pc
variable {τ α κ : Type}

/-- The call has returned. -/
def isDone : Pc τ α κ → Bool
  | .done _ => true
  | _ => false

/-- A context of `r` is about to be made. -/
def inserts (r : UInt32) : Pc τ α κ → Bool
  | .insert b _ _ => b.requestId == r
  | _ => false

/-- A cancel of `r` has cleared the queue and has still to correct the count. -/
def correcting (r : UInt32) : Pc τ α κ → Bool
  | .cancelUpdate r' _ _ => r' == r
  | _ => false

theorem isDone_iff {pc : Pc τ α κ} : pc.isDone = true ↔ ∃ ret, pc = .done ret := by
  cases pc with
  | done ret => simp [isDone]
  | _ => simp [isDone]

theorem role_of_isDone {pc : Pc τ α κ} (h : pc.isDone = true) (r : UInt32) : pc.role r = .none := by
  obtain ⟨ret, rfl⟩ := isDone_iff.1 h
  rfl

/-- A call has a role of `r` from the attachment of its tasks on, or inside a cancel of `r`. -/
theorem submit_of_role {pc : Pc τ α κ} {r : UInt32} (h : pc.role r ≠ .none) :
    (∃ b, pc.submit? = some b ∧ b.requestId = r) ∨ pc = .cancelFind r ∨ (∃ x, pc = .cancelRead r x) ∨
      (∃ x i, pc = .cancelQueue r x i) ∨ ∃ x n, pc = .cancelUpdate r x n := by
  cases pc with
  | findCtx b i nodes =>
    by_cases hb : b.requestId = r
    · exact .inl ⟨b, rfl, hb⟩
    · simp [role, hb] at h
  | insert b i nodes =>
    by_cases hb : b.requestId = r
    · exact .inl ⟨b, rfl, hb⟩
    · simp [role, hb] at h
  | bump b nodes x =>
    by_cases hb : b.requestId = r
    · exact .inl ⟨b, rfl, hb⟩
    · simp [role, hb] at h
  | cancelFind r' =>
    obtain rfl : r' = r := by
      by_contra hr
      simp [role, hr] at h
    exact .inr (.inl rfl)
  | cancelRead r' x =>
    obtain rfl : r' = r := by
      by_contra hr
      simp [role, hr] at h
    exact .inr (.inr (.inl ⟨x, rfl⟩))
  | cancelQueue r' x i =>
    obtain rfl : r' = r := by
      by_contra hr
      simp [role, hr] at h
    exact .inr (.inr (.inr (.inl ⟨x, i, rfl⟩)))
  | cancelUpdate r' x n =>
    obtain rfl : r' = r := by
      by_contra hr
      simp [role, hr] at h
    exact .inr (.inr (.inr (.inr ⟨x, n, rfl⟩)))
  | _ => exact absurd rfl h

end Pc

/-- A cancel of `r`. -/
def Call.cancelOf {α κ : Type} (r : UInt32) : Call α κ → Bool
  | .cancel r' => r' == r
  | _ => false

namespace Pool
variable {τ α κ : Type} [DecidableEq τ] {p p' : Pool τ α κ} {t : τ} {o : Oracle} {pc pc' : Pc τ α κ}

omit [DecidableEq τ] in
theorem NoNew.ctxs_nil (h : NoNew p p') {r : UInt32} (hr : p.ctxs r = []) : p'.ctxs r = [] := by
  refine List.eq_nil_iff_forall_not_mem.2 fun c hc => ?_
  obtain ⟨hmem, hc⟩ := List.mem_filter.1 hc
  obtain ⟨c₀, hmem₀, hsame⟩ := h _ c hmem
  have : c₀ ∈ p.ctxs r := List.mem_filter.2 ⟨hmem₀, by rw [← hsame.2.1]; exact hc⟩
  rw [hr] at this
  cases this

theorem threadStep_slot (h : ThreadStep p t o pc p' pc') (j : Fin 64) :
    (p'.workers j).pendingReq = (p.workers j).pendingReq ∨
      ∃ r, pc = .wakeSet r j ∧ (p'.workers j).pendingReq = r := by
  have hset : ∀ {i : Fin 64} {w : WorkerThread τ α κ}, p'.workers = Function.update p.workers i w →
      w.pendingReq = (p.workers i).pendingReq → (p'.workers j).pendingReq = (p.workers j).pendingReq := by
    intro i w hw hp
    rw [hw]
    rcases eq_or_ne j i with rfl | hj
    · rw [Function.update_self, hp]
    · rw [Function.update_of_ne hj]
  cases h with
  | attach b i nodes size hm hs => exact .inl (hset (i := i) rfl rfl)
  | cancelQueue r x i hm => exact .inl (hset (i := i) rfl rfl)
  | wakeSet r i hm =>
    rcases eq_or_ne j i with rfl | hj
    · exact .inr ⟨r, rfl, by simp⟩
    · exact .inl (congrArg _ (setWorker_workers_ne _ hj _))
  | cancelUpdate => left; split <;> rfl
  | cancelUpdateDangling => left; split <;> rfl
  | _ => exact .inl rfl

theorem workerStep_slot {i : Fin 64} (h : WorkerStep p i o p') (j : Fin 64) :
    (p'.workers j).pendingReq = (p.workers j).pendingReq ∨ (p'.workers j).pendingReq = 0 := by
  have hset : ∀ {w : WorkerThread τ α κ}, p'.workers = Function.update p.workers i w →
      w.pendingReq = (p.workers i).pendingReq ∨ w.pendingReq = 0 →
      (p'.workers j).pendingReq = (p.workers j).pendingReq ∨ (p'.workers j).pendingReq = 0 := by
    intro w hw hp
    rw [hw]
    rcases eq_or_ne j i with rfl | hj
    · rwa [Function.update_self]
    · rw [Function.update_of_ne hj]
      exact .inl rfl
  cases h with
  | park => exact hset rfl (.inr rfl)
  | take => exact hset rfl (.inr rfl)
  | _ => exact hset rfl (.inl rfl)

theorem threadStep_wakeRead {r : UInt32} {x : τ} (h : ThreadStep p t o pc p' (.wakeRead r x)) :
    p.ctxs r ≠ [] := by
  generalize hq : Pc.wakeRead r x = q at h
  cases h with
  | wakeFindSome r' c hf =>
    cases hq
    intro hnil
    rw [findReqContext_eq, hnil] at hf
    cases hf
  | select b nodes i best minLoad hm =>
    rcases p.selectStep_cases b nodes i best minLoad with ⟨j, best', minLoad', h⟩ | ⟨w, h⟩ | h <;> rw [h] at hq
    · cases hq
    · unfold afterSelect at hq
      split at hq <;> cases hq
    · cases hq
  | create b worker nodes arg ha =>
    unfold afterCreate at hq
    split at hq
    · cases hq
    · split at hq <;> cases hq
  | cancelQueue r' y i hm => split at hq <;> cases hq
  | _ => cases hq

theorem threadStep_wakeSet {r : UInt32} {i : Fin 64} (h : ThreadStep p t o pc p' (.wakeSet r i)) :
    ∃ x, pc = .wakeRead r x := by
  generalize hq : Pc.wakeSet r i = q at h
  cases h with
  | wakeRead r' x =>
    cases hq
    exact ⟨x, rfl⟩
  | select b nodes i best minLoad hm =>
    rcases p.selectStep_cases b nodes i best minLoad with ⟨j, best', minLoad', h⟩ | ⟨w, h⟩ | h <;> rw [h] at hq
    · cases hq
    · unfold afterSelect at hq
      split at hq <;> cases hq
    · cases hq
  | create b worker nodes arg ha =>
    unfold afterCreate at hq
    split at hq
    · cases hq
    · split at hq <;> cases hq
  | cancelQueue r' y j hm => split at hq <;> cases hq
  | _ => cases hq

theorem threadStep_role {r : UInt32} (h : ThreadStep p t o pc p' pc') (hr : pc.role r = .none)
    (hb : ∀ b, pc.submit? = some b → b.requestId ≠ r) : pc'.role r = .none := by
  have hcancel : ∀ {r' : UInt32} {x : Role τ α κ}, (if r' = r then x else .none) = .none → x ≠ .none → r' ≠ r := by
    rintro r' x hx hne rfl
    exact hne (by simpa using hx)
  cases h with
  | select b nodes i best minLoad hm =>
    rcases p.selectStep_cases b nodes i best minLoad with ⟨j, best', minLoad', h⟩ | ⟨w, h⟩ | h <;> rw [h]
    · rfl
    · unfold afterSelect
      split <;> rfl
    · rfl
  | create b worker nodes arg ha =>
    unfold afterCreate
    split
    · rfl
    · split <;> rfl
  | attach b i nodes size hm hs => exact if_neg (hb b rfl)
  | findSome b i nodes ctx hf => exact if_neg (hb b rfl)
  | findNone b i nodes hf => exact if_neg (hb b rfl)
  | cancelFindSome r' ctx hf => exact if_neg (hcancel hr (by simp))
  | cancelRead r' ctx => exact if_neg (hcancel hr (by simp))
  | cancelQueue r' ctx i hm =>
    split
    · exact if_neg (hcancel hr (by simp))
    · rfl
  | _ => rfl

end Pool

/-- What the task still counts for. -/
def Duty.left {τ : Type} : Duty τ → Nat
  | .counted | .dec _ => 1
  | _ => 0

/-- `c` is bound to the worker that has all that is left of `r`, and counts it, until the worker has counted
off the last task and is about to remove `c`. -/
structure Pool.CountedBy {τ α κ : Type} (p : Pool τ α κ) (r : UInt32) (c : RequestContext τ κ) : Prop where
  bound : ∀ i, i ≠ c.workerIdx → p.queued i r = [] ∧ (p.workers i).pc.duty r = .none
  count : (p.workers c.workerIdx).pc.duty r ≠ .retiring →
    0 < (p.queued c.workerIdx r).length + ((p.workers c.workerIdx).pc.duty r).left ∧
      c.pendingCount = Int32.ofNat ((p.queued c.workerIdx r).length + ((p.workers c.workerIdx).pc.duty r).left)
  retiring : (p.workers c.workerIdx).pc.duty r = .retiring → p.queued c.workerIdx r = []

namespace View.Stage
variable {τ α κ : Type} {v : View τ α κ}

theorem dec_live (h : v.Stage) {i : Fin 64} {x : τ} (hd : v.duty i = .dec x) :
    ∃ c, v.ctxs = [c] ∧ x = c.owner ∧ c.workerIdx = i := by
  have hres : v.Residue → ∃ c, v.ctxs = [c] ∧ x = c.owner ∧ c.workerIdx = i := by
    intro hres
    obtain ⟨c, hc, hw, -, ⟨-, hcnt⟩ | hret⟩ := hres.duty_cases (i := i) (by simp [hd])
    · exact ⟨c, hc, by simpa [hd] using hcnt, hw⟩
    · cases hd.symm.trans hret
  cases h with
  | settled hq h hr => exact hres h
  | live w c d hc hw hne hn hlt hdw hq hd' hr =>
    obtain rfl : i = w := by
      by_contra hi
      cases hd.symm.trans (hd' i hi)
    obtain ⟨rfl, -⟩ : x = c.owner ∧ d = 1 := by simpa [hd] using hdw
    exact ⟨c, hc, rfl, hw⟩
  | cancelling u c n hc hn hu hq hd' hr => cases hd.symm.trans (hd' i)
  | window u w nodes h hu hlen hq hq' hr => exact hres h

/-- A cancel that has still to correct the count has left nothing to do. -/
theorem cancelUpdate_drained (h : v.Stage) {t x : τ} {n : UInt32} (ht : v.role t = .cancelUpdate x n) (i : Fin 64) :
    v.queued i = [] ∧ v.duty i = .none := by
  have hcalm : ¬ (v.role t).calm := by rw [ht]; exact id
  cases h with
  | settled hq hres hr => exact absurd (hr t) hcalm
  | live w c d hc hw hne hn hlt hdw hq hd' hr => exact absurd (hr t) hcalm
  | cancelling u c n hc hn hu hq hd' hr => exact ⟨hq i, hd' i⟩
  | window u w nodes hres hu hlen hq hq' hr =>
    rcases eq_or_ne t u with rfl | hne
    · rcases hu with hu | ⟨hu, -⟩ <;> cases ht.symm.trans hu
    · exact absurd (hr t hne ▸ trivial) hcalm

end View.Stage

open Lts
namespace PoolSys
variable {τ α κ : Type} [DecidableEq τ]

/-- Only the call `t` submits tasks of `r`, a cancel of `r` is called after `t` has returned, and `t` gets
memory for the context. -/
def SoloAct (r : UInt32) (t : τ) (s : PoolSys τ α κ) : Act τ α κ → Prop
  | .call u c _ => (∀ b ∈ c.submit?, b.requestId = r → u = t) ∧
      (c.cancelOf r = true → (s.threads t).isDone = true)
  | .thread u o => u = t → (s.threads t).inserts r = true → o.ok = true
  | .worker .. => True

instance decidableSoloAct (r : UInt32) (t : τ) (s : PoolSys τ α κ) (a : Act τ α κ) :
    Decidable (SoloAct r t s a) :=
  match a with
  | .call u c _ => inferInstanceAs (Decidable ((∀ b ∈ c.submit?, b.requestId = r → u = t) ∧
      (c.cancelOf r = true → (s.threads t).isDone = true)))
  | .thread u o => inferInstanceAs (Decidable (u = t → (s.threads t).inserts r = true → o.ok = true))
  | .worker .. => .isTrue trivial

/-- Nothing of the pool knows of `r` but the call `t`. -/
structure Unwoken (r : UInt32) (t : τ) (s : PoolSys τ α κ) : Prop where
  ctxs : s.pool.ctxs r = []
  slots : ∀ i, (s.pool.workers i).pendingReq = r → r = 0
  reads : ∀ u x, s.threads u ≠ .wakeRead r x
  sets : ∀ u i, s.threads u ≠ .wakeSet r i
  roles : ∀ u, u ≠ t → (s.view r).role u = .none

structure Solo (r : UInt32) (t : τ) (s : PoolSys τ α κ) : Prop where
  account : (s.view r).Account
  only : ∀ u b, (s.threads u).submit? = some b → b.requestId = r → u = t
  before : (s.threads t).isDone = false → Unwoken r t s

omit [DecidableEq τ] in
theorem solo_start (r : UInt32) (t : τ) : Solo r t (start : PoolSys τ α κ) where
  account := account_start r
  only u b hb := by cases hb
  before _ := by
    refine ⟨rfl, fun i hi => hi.symm, ?_, ?_, fun u _ => rfl⟩
    · intro u x hu; cases hu
    · intro u i hu; cases hu

namespace Solo
variable {r : UInt32} {t : τ} {s s' : PoolSys τ α κ} {a : Act τ α κ}

omit [DecidableEq τ] in
theorem not_open (h : Solo r t s) (ht : (s.threads t).isDone = true) : ¬ (s.view r).Open := by
  rintro ⟨u, i, nodes, hu⟩
  have hne : (s.threads u).role r ≠ .none := by
    intro hnone
    rcases hu with hu | hu <;> cases hnone.symm.trans hu
  rcases Pc.submit_of_role hne with ⟨b, hb, hid⟩ | hpc | ⟨x, hpc⟩ | ⟨x, j, hpc⟩ | ⟨x, n, hpc⟩
  · obtain rfl := h.only u b hb hid
    exact hne (Pc.role_of_isDone ht r)
  all_goals
    have hrole : (s.view r).role u = (s.threads u).role r := rfl
    rw [hrole, hpc] at hu
    simp [Pc.role] at hu

omit [DecidableEq τ] in
theorem submitting (h : Solo r t s) {b : Submit α κ} {u : τ} (hb : (s.threads u).submit? = some b)
    (hid : b.requestId = r) : u = t ∧ Unwoken r t s := by
  obtain rfl := h.only u b hb hid
  refine ⟨rfl, h.before ?_⟩
  by_contra hd
  obtain ⟨ret, hret⟩ := Pc.isDone_iff.1 (by simpa using hd)
  rw [hret] at hb
  cases hb

omit [DecidableEq τ] in
theorem careful (h : Solo r t s) (ha : SoloAct r t s a) : Careful r s a := by
  intro m hm
  cases m with
  | plain => trivial
  | take =>
    obtain ⟨i, o, rfl, -, hslot, hr, -⟩ := hm
    refine h.not_open ?_
    by_contra hd
    exact hr ((h.before (by simpa using hd)).slots i hslot)
  | attach =>
    obtain ⟨u, o, b, i, nodes, rfl, hpc, hid⟩ := hm
    obtain ⟨rfl, hun⟩ := h.submitting (u := u) (b := b) (by rw [hpc]; rfl) hid
    have hroles : ∀ v, (s.view r).role v = .none := by
      intro v
      rcases eq_or_ne v u with rfl | hv
      · change (s.threads v).role r = .none
        rw [hpc]
        rfl
      · exact hun.roles v hv
    refine ⟨?_, hroles⟩
    cases h.account.stage with
    | settled hq hres hr => exact hq
    | live w c d hc => cases hun.ctxs.symm.trans hc
    | cancelling v c n hc => cases hun.ctxs.symm.trans hc
    | window v w nodes hres hv =>
      rw [hroles v] at hv
      rcases hv with hv | ⟨hv, -⟩ <;> cases hv
  | hit =>
    obtain ⟨u, o, b, i, nodes, rfl, hpc, hid, hne⟩ := hm
    exact hne (h.submitting (u := u) (b := b) (by rw [hpc]; rfl) hid).2.ctxs
  | noContext =>
    obtain ⟨u, o, b, i, nodes, rfl, hpc, hid, ho⟩ := hm
    obtain ⟨rfl, -⟩ := h.submitting (u := u) (b := b) (by rw [hpc]; rfl) hid
    have := ha rfl (by rw [hpc]; simpa [Pc.inserts] using hid)
    rw [ho] at this
    cases this
  | cancel =>
    obtain ⟨u, o, rfl⟩ := hm
    exact h.not_open (ha.2 (by simp [Call.cancelOf]))

end Solo

omit [DecidableEq τ] in
theorem enter_role_none (p : Pool τ α κ) (o : Oracle) (c : Call α κ) {r : UInt32} (hc : c.cancelOf r = false) :
    (enter p o c).role r = .none := by
  cases c with
  | cancel r' =>
    simp only [enter]
    split
    · exact if_neg (by simpa [Call.cancelOf] using hc)
    · rfl
  | submitTask r' arg cb =>
    simp only [enter]
    split <;> rfl
  | submitBatch b =>
    simp only [enter]
    split
    · rfl
    split
    · rfl
    split <;> rfl
  | wakeUp r' => rfl

omit [DecidableEq τ] in
theorem enter_not_waking (p : Pool τ α κ) (o : Oracle) (c : Call α κ) (r : UInt32) :
    (∀ x, enter p o c ≠ .wakeRead r x) ∧ ∀ i, enter p o c ≠ .wakeSet r i := by
  cases c with
  | cancel r' =>
    simp only [enter]
    split <;> exact ⟨by simp, by simp⟩
  | submitTask r' arg cb =>
    simp only [enter]
    split <;> exact ⟨by simp, by simp⟩
  | submitBatch b =>
    simp only [enter]
    split
    · exact ⟨by simp, by simp⟩
    split
    · exact ⟨by simp, by simp⟩
    split <;> exact ⟨by simp, by simp⟩
  | wakeUp r' => exact ⟨by simp [enter], by simp [enter]⟩

namespace Unwoken
variable {r : UInt32} {t : τ} {s s' : PoolSys τ α κ} {a : Act τ α κ}

theorem step (h : Unwoken r t s) (ha : SoloAct r t s a)
    (honly : ∀ u b, (s.threads u).submit? = some b → b.requestId = r → u = t) (hs : s.step a = some s')
    (hd : (s'.threads t).isDone = false) : Unwoken r t s' := by
  have hd₀ : (s.threads t).isDone = false := by
    by_contra hd₀
    obtain ⟨ret, hret⟩ := Pc.isDone_iff.1 (by simpa using hd₀)
    rw [done_step hret hs] at hd
    cases hd
  cases step_cases hs with
  | worker i o p hp =>
    refine ⟨hp.noNew.ctxs_nil h.ctxs, fun j hj => ?_, h.reads, h.sets, h.roles⟩
    rcases Pool.workerStep_slot hp j with hw | hw
    · exact h.slots j (hw.symm.trans hj)
    · exact (hw.symm.trans hj).symm
  | call u c o hu =>
    obtain ⟨hreads, hsets⟩ := enter_not_waking s.pool o c r
    refine ⟨h.ctxs, h.slots, fun v x => ?_, fun v i => ?_, fun v hv => ?_⟩
    · rw [setThread_threads]
      split
      · exact hreads x
      · exact h.reads v x
    · rw [setThread_threads]
      split
      · exact hsets i
      · exact h.sets v i
    · change ((s.setThread u _).threads v).role r = .none
      rw [setThread_threads]
      split
      · refine enter_role_none _ _ _ ?_
        by_contra hc
        rw [ha.2 (by simpa using hc)] at hd₀
        cases hd₀
      · exact h.roles v hv
  | thread u o p pc hp =>
    have hctxs : p.ctxs r = [] := by
      rcases hp.noNew with hnew | ⟨b, i, nodes, hpc, rfl, rfl⟩
      · exact hnew.ctxs_nil h.ctxs
      · rw [Pool.insertReqContext_ctxs, if_neg, h.ctxs]
        intro hid
        -- the context of `r` is inserted by `t`, which returns
        obtain rfl := honly u b (by rw [hpc]; rfl) hid
        rw [setThread_threads, if_pos rfl] at hd
        cases hd
    refine ⟨hctxs, fun j hj => ?_, fun v x => ?_, fun v i => ?_, fun v hv => ?_⟩
    · rcases Pool.threadStep_slot hp j with hw | ⟨r', hpc, hw⟩
      · exact h.slots j (hw.symm.trans hj)
      · exact absurd hpc (hw.symm.trans hj ▸ h.sets u j)
    · rw [setThread_threads]
      split
      · rintro rfl
        exact Pool.threadStep_wakeRead hp h.ctxs
      · exact h.reads v x
    · rw [setThread_threads]
      split
      · rintro rfl
        obtain ⟨x, hx⟩ := Pool.threadStep_wakeSet hp
        exact h.reads u x hx
      · exact h.sets v i
    · change (({ s with pool := p }.setThread u pc).threads v).role r = .none
      rw [setThread_threads]
      split
      · rename_i hvu
        subst hvu
        exact Pool.threadStep_role hp (h.roles v hv) fun b hb hid => hv (honly v b hb hid)
      · exact h.roles v hv

end Unwoken

namespace Solo
variable {r : UInt32} {t : τ} {s s' : PoolSys τ α κ} {a : Act τ α κ}

theorem step (h : Solo r t s) (htr : ∀ u, Tracked s u) (ha : SoloAct r t s a) (hs : s.step a = some s') :
    Solo r t s' where
  account := account_step h.account htr (h.careful ha) hs
  only u b hb hid := by
    cases step_cases hs with
    | worker i o p hp => exact h.only u b hb hid
    | call v c o hv =>
      rw [setThread_threads] at hb
      split at hb
      · rename_i huv
        subst huv
        exact ha.1 b ((enter_local s.pool o c u).2.2.2 b hb) hid
      · exact h.only u b hb hid
    | thread v o p pc hp =>
      rw [setThread_threads] at hb
      split at hb
      · rename_i huv
        subst huv
        exact h.only u b ((Pool.local_threadStep hp (htr u).made).2.1 b hb) hid
      · exact h.only u b hb hid
  before hd := by
    refine (h.before ?_).step ha h.only hs hd
    by_contra hd₀
    obtain ⟨ret, hret⟩ := Pc.isDone_iff.1 (by simpa using hd₀)
    rw [done_step hret hs] at hd
    cases hd

end Solo

theorem solo {r : UInt32} {t : τ} {s : PoolSys τ α κ} {as : List (Act τ α κ)}
    (ha : Along PoolSys.step (SoloAct r t) start as) (he : exec PoolSys.step start as = some s) : Solo r t s := by
  have := exec_inv (I := fun s : PoolSys τ α κ => (∀ u, Tracked s u) ∧ Solo r t s)
    (fun s a s' hi ha hs => ⟨tracked_step hi.1 hs, hi.2.step hi.1 ha hs⟩)
    ⟨tracked_start, solo_start r t⟩ ha he
  exact this.2

/-! ### In memory -/

section
variable {r : UInt32} {t : τ} {s : PoolSys τ α κ} {a : Act τ α κ} {xs : List (Act τ α κ × Tenant τ)}

/-- `pending_count` of the request is written through good pointers: a worker counts a task off the context it is
bound to, and a cancel corrects the count to 0. -/
theorem Solo.pointers (h : Solo r t s) :
    (∀ i task x, (s.pool.workers i).pc = .dec task x → task.requestId = r →
      ∃ c, s.pool.deref r x = some c ∧ c.workerIdx = i) ∧
    ∀ u x n, s.threads u = .cancelUpdate r x n →
      ∃ c, s.pool.deref r x = some c ∧ c.pendingCount + -n.toInt32 = 0 ∧ ∀ i, s.pool.queued i r = [] := by
  constructor
  · intro i task x hpc hid
    have hd : (s.view r).duty i = .dec x := by
      change (s.pool.workers i).pc.duty r = _
      rw [hpc]
      exact if_pos hid
    obtain ⟨c, hc, rfl, hw⟩ := h.account.stage.dec_live hd
    refine ⟨c, ?_, hw⟩
    rw [Pool.deref_eq, show s.pool.ctxs r = [c] from hc]
    simp
  · intro u x n hpc
    have hrole : (s.view r).role u = .cancelUpdate x n := by
      change (s.threads u).role r = _
      rw [hpc]
      exact if_pos rfl
    obtain ⟨c, hc, rfl, hzero, hst⟩ := h.account.stage.cancelUpdate hrole
    refine ⟨c, ?_, ?_, fun i => ?_⟩
    · rw [Pool.deref_eq, show s.pool.ctxs r = [c] from hc]
      simp
    · simpa [Pool.bumped] using hzero
    · exact (h.account.stage.cancelUpdate_drained hrole i).1

theorem Solo.not_stray (h : Solo r t s) {e : UInt32 × τ × Int32} (he : s.stray a = some e) : e.1 ≠ r := by
  rintro rfl
  obtain ⟨hw, hfreed⟩ := Option.filter_eq_some_iff.1 he
  cases a with
  | call u c o => cases hw
  | thread u o =>
    simp only [write] at hw
    split at hw
    · rename_i b nodes x hpc
      cases hw
      refine h.account.stage.not_bump u x ?_
      change (s.threads u).role b.requestId = _
      rw [hpc]
      exact if_pos rfl
    · rename_i r x n hpc
      cases hw
      obtain ⟨c, hc, -⟩ := h.pointers.2 u x n hpc
      simp [hc] at hfreed
    · cases hw
  | worker i o =>
    simp only [write] at hw
    split at hw
    · rename_i task x hpc
      cases hw
      obtain ⟨c, hc, -⟩ := h.pointers.1 i task x hpc rfl
      simp [hc] at hfreed
    · cases hw

/-- No section of another request writes to a context that has been freed. -/
def OthersSound (r : UInt32) (s : PoolSys τ α κ) (x : Act τ α κ × Tenant τ) : Prop :=
  ∀ e ∈ s.stray x.1, e.1 = r

instance decidableOthersSound (r : UInt32) (s : PoolSys τ α κ) (x : Act τ α κ × Tenant τ) :
    Decidable (OthersSound r s x) :=
  inferInstanceAs (Decidable (∀ e ∈ s.stray x.1, e.1 = r))

/-- A run in memory in which `t` alone submits tasks of `r` is a run of `step`. -/
theorem exec_solo {C : PoolSys τ α κ → Act τ α κ → Prop} (hC : ∀ s a, C s a → SoloAct r t s a)
    (ha : Along memStep (fun s x => C s x.1 ∧ OthersSound r s x) start xs) (he : exec memStep start xs = some s) :
    exec PoolSys.step start (xs.map Prod.fst) = some s ∧ Along PoolSys.step C start (xs.map Prod.fst) := by
  have hsound : ∀ {s : PoolSys τ α κ} {x : Act τ α κ × Tenant τ}, Solo r t s → OthersSound r s x → NoStray s x :=
    fun h hx => Option.eq_none_iff_forall_ne_some.2 fun e he => h.not_stray he (hx e he)
  have hnone := Along.of_inv (I := fun s : PoolSys τ α κ => (∀ u, Tracked s u) ∧ Solo r t s)
    (D := fun s (x : Act τ α κ × Tenant τ) => NoStray s x ∧ C s x.1)
    (fun s x s' hi hx hs => by
      rw [memStep_of_noStray (hsound hi.2 hx.2)] at hs
      exact ⟨tracked_step hi.1 hs, hi.2.step hi.1 (hC s x.1 hx.1) hs⟩)
    (fun s x hi hx => ⟨hsound hi.2 hx.2, hx.1⟩) ⟨tracked_start, solo_start r t⟩ ha
  exact ⟨exec_memStep he (hnone.mono fun _ _ h => h.1), along_memStep hnone⟩

end

/-- From the return of the submission on, the request has one context while tasks of it are left, and none
otherwise; the context counts them. -/
theorem solo_counted {r : UInt32} {t : τ} {s : PoolSys τ α κ} {xs : List (Act τ α κ × Tenant τ)}
    (ha : Along memStep (fun s x => SoloAct r t s x.1 ∧ OthersSound r s x) start xs) (he : exec memStep start xs = some s)
    (ht : (s.threads t).isDone = true) (hc : ∀ u, (s.threads u).correcting r = false) :
    (s.pool.ctxs r = [] ∧ ∀ i, s.pool.queued i r = [] ∧ (s.pool.workers i).pc.duty r = .none) ∨
      ∃ c, s.pool.ctxs r = [c] ∧ s.pool.CountedBy r c := by
  obtain ⟨he, ha⟩ := exec_solo (fun _ _ => id) ha he
  have hs := solo ha he
  cases hs.account.stage with
  | settled hq hres hr =>
    cases hres with
    | gone hc hd => exact .inl ⟨hc, fun i => ⟨hq i, hd i⟩⟩
    | last w c hc hw hn hd hd' =>
      subst hw
      refine .inr ⟨c, hc, fun i hi => ⟨hq i, hd' i hi⟩, fun _ => ?_, fun _ => hq _⟩
      have hleft : ((s.pool.workers c.workerIdx).pc.duty r).left = 1 := by
        rcases hd with hd | hd <;> exact congrArg Duty.left hd
      have hqueued : s.pool.queued c.workerIdx r = [] := hq c.workerIdx
      rw [hqueued, hleft]
      exact ⟨Nat.one_pos, hn⟩
    | retiring w c hc hw hd hd' =>
      subst hw
      exact .inr ⟨c, hc, fun i hi => ⟨hq i, hd' i hi⟩, fun hne => absurd hd hne, fun _ => hq _⟩
  | live w c d hc hw hne hn hlt hdw hq hd' hr =>
    subst hw
    have hleft : ((s.pool.workers c.workerIdx).pc.duty r).left = d ∧
        (s.pool.workers c.workerIdx).pc.duty r ≠ .retiring := by
      rcases hdw with ⟨hd, rfl⟩ | ⟨hd | hd, rfl⟩
      all_goals
        change (s.pool.workers c.workerIdx).pc.duty r = _ at hd
        rw [hd]
        exact ⟨rfl, by simp⟩
    refine .inr ⟨c, hc, fun i hi => ⟨hq i hi, hd' i hi⟩, fun _ => ?_, fun hret => absurd hret hleft.2⟩
    rw [hleft.1]
    exact ⟨Nat.add_pos_left (List.length_pos_iff.2 hne) d, hn⟩
  | cancelling u c n hc' hn hu hq hd hr =>
    have hrole : (s.threads u).role r = .cancelUpdate c.owner (UInt32.ofNat n) := hu
    rcases Pc.submit_of_role (r := r) (by rw [hrole]; simp) with ⟨b, hb, hid⟩ | hpc | ⟨x, hpc⟩ | ⟨x, i, hpc⟩ | ⟨x, n, hpc⟩
    · obtain rfl := hs.only u b hb hid
      cases hrole.symm.trans (Pc.role_of_isDone ht r)
    · simp [hpc, Pc.role] at hrole
    · simp [hpc, Pc.role] at hrole
    · simp [hpc, Pc.role] at hrole
    · have := hc u
      simp [hpc, Pc.correcting] at this
  | window u w nodes hres hu hlen hq hq' hr =>
    exact absurd ⟨u, w, nodes, hu.imp_right And.left⟩ (hs.not_open ht)

/-- The context pointers of the request that are written through are good in every state of the run. -/
theorem solo_pointers {r : UInt32} {t : τ} {s : PoolSys τ α κ} {xs : List (Act τ α κ × Tenant τ)}
    (ha : Along memStep (fun s x => SoloAct r t s x.1 ∧ OthersSound r s x) start xs) (he : exec memStep start xs = some s) :
    (∀ i task x, (s.pool.workers i).pc = .dec task x → task.requestId = r →
      ∃ c, s.pool.deref r x = some c ∧ c.workerIdx = i) ∧
    ∀ u x n, s.threads u = .cancelUpdate r x n →
      ∃ c, s.pool.deref r x = some c ∧ c.pendingCount + -n.toInt32 = 0 ∧ ∀ i, s.pool.queued i r = [] :=
  have hrun := exec_solo (fun _ _ => id) ha he
  (solo hrun.2 hrun.1).pointers

/-! ### Two tasks, one of them executed, and a cancel -/

/-- Call 0 submits two tasks of request 7, call 1 wakes them, worker 0 executes the first one and has still to
count it; call 2 cancels. -/
def soloRun : List (Act (Fin 3) Unit Unit) :=
  .call 0 (.submitBatch twoTasks) {} :: List.replicate 6 (.thread 0 {}) ++
    (.call 1 (.wakeUp 7) {} :: List.replicate 3 (.thread 1 {})) ++ List.replicate 4 (.worker 0 {}) ++
    (.call 2 (.cancel 7) {} :: List.replicate 2 (.thread 2 {}))

def soloEnd : PoolSys (Fin 3) Unit Unit := last PoolSys.step start soloRun (by decide +kernel)

theorem soloEnd_counted : (soloEnd.pool.ctxs 7 = [] ∧
    ∀ i, soloEnd.pool.queued i 7 = [] ∧ (soloEnd.pool.workers i).pc.duty 7 = .none) ∨
      ∃ c, soloEnd.pool.ctxs 7 = [c] ∧ soloEnd.pool.CountedBy 7 c :=
  have hrun : exec memStep start (quiet soloRun) = some soloEnd := (exec_quiet (by decide +kernel)).2 (exec_last _)
  solo_counted (t := 0) (by decide +kernel) hrun (by decide +kernel) (by decide +kernel)

/-- The same run on to where the cancel has cleared the queue. -/
def clearedRun : List (Act (Fin 3) Unit Unit) := soloRun ++ List.replicate 2 (.worker 0 {}) ++ [.thread 2 {}]

def clearedEnd : PoolSys (Fin 3) Unit Unit := last PoolSys.step start clearedRun (by decide +kernel)

theorem clearedEnd_pointers : (∀ i task x, (clearedEnd.pool.workers i).pc = .dec task x → task.requestId = 7 →
      ∃ c, clearedEnd.pool.deref 7 x = some c ∧ c.workerIdx = i) ∧
    ∀ u x n, clearedEnd.threads u = .cancelUpdate 7 x n →
      ∃ c, clearedEnd.pool.deref 7 x = some c ∧ c.pendingCount + -n.toInt32 = 0 ∧
        ∀ i, clearedEnd.pool.queued i 7 = [] :=
  have hrun : exec memStep start (quiet clearedRun) = some clearedEnd := (exec_quiet (by decide +kernel)).2 (exec_last _)
  solo_pointers (t := 0) (by decide +kernel) hrun

end PoolSys
end OsTransport
