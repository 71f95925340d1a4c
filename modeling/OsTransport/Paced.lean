import OsTransport.Solo
import OsTransport.Traffic
import OsTransport.WakeLedger

/-!
# Wake-ups made one at a time

A slot holds one id, so a wake-up that is stored over another one destroys it. Here a request is submitted once and
not cancelled, it is woken only after its submission has returned, while tasks of it are queued and no wake-up of
it is on its way or in a slot, and no other id is stored over it (`PacedAct`). `Paced` says that the one wake-up is
then aimed at the worker that has the tasks. Every interleaving keeps it, so each wake-up returns 0 and is answered by
one task (`paced_wakes`).
-/

namespace OsTransport

/-- The pointer of a wake-up of `r` is the context of `r`, its worker has tasks of `r`. -/
def Pc.Aimed {τ α κ : Type} (p : Pool τ α κ) (r : UInt32) : Pc τ α κ → Prop
  | .wakeRead _ x => ∃ c ∈ p.ctxs r, c.owner = x
  | .wakeSet _ i => p.queued i r ≠ []
  | _ => True

namespace Pool
variable {τ α κ : Type} [DecidableEq τ] {p p' : Pool τ α κ} {r : UInt32} {t : τ} {o : Oracle} {pc pc' : Pc τ α κ}

omit [DecidableEq τ] in
theorem aimed_mono (h : pc.Aimed p r) (hq : ∀ i, p.queued i r ≠ [] → p'.queued i r ≠ [])
    (hc : ∀ c ∈ p.ctxs r, ∃ c' ∈ p'.ctxs r, c'.owner = c.owner) : pc.Aimed p' r := by
  cases pc with
  | wakeRead r' x =>
    obtain ⟨c, hmem, rfl⟩ := h
    exact hc c hmem
  | wakeSet r' i => exact hq i h
  | _ => trivial

theorem queued_threadStep (h : ThreadStep p t o pc p' pc') (hr : pc.role r = .none) {i : Fin 64}
    (hq : p.queued i r ≠ []) : p'.queued i r ≠ [] := by
  cases h with
  | attach b j nodes size hm hs =>
    rw [queued_update (j := j) rfl]
    split
    · rename_i hi
      subst hi
      rw [List.filter_append]
      exact fun h => hq (List.append_eq_nil_iff.1 h).1
    · exact hq
  | cancelQueue r' x j hm =>
    have hne : r' ≠ r := by
      rintro rfl
      simp [Pc.role] at hr
    rw [queued_update (j := j) rfl]
    split
    · rename_i hi
      subst hi
      rw [List.filter_filter]
      refine fun h => hq ((List.filter_congr fun task _ => ?_).trans h)
      by_cases hid : task.requestId = r
      · simp [hid, hne.symm]
      · simp [hid]
    · exact hq
  | wakeSet r' j hm =>
    rw [queued_update (j := j) rfl]
    split
    · rename_i hi
      subst hi
      exact hq
    · exact hq
  | cancelUpdate => split <;> exact hq
  | cancelUpdateDangling => split <;> exact hq
  | _ => exact hq

theorem queued_workerStep {j : Fin 64} (h : WorkerStep p j o p') {i : Fin 64} (hq : p.queued i r ≠ []) :
    p'.queued i r ≠ [] ∨ (p.workers j).pendingReq = r ∧ (p'.workers j).pendingReq = 0 := by
  have hsame : ∀ {w : WorkerThread τ α κ}, p'.workers = Function.update p.workers j w →
      w.queue = (p.workers j).queue → p'.queued i r ≠ [] := by
    intro w hw hwq
    rwa [queued_same hw hwq]
  cases h with
  | take task rest hpc hne hpop =>
    by_cases hid : (p.workers j).pendingReq = r
    · exact .inr ⟨hid, by simp⟩
    · left
      rw [queued_update (j := j) rfl]
      split
      · rename_i hi
        subst hi
        have htask : task.requestId = (p.workers i).pendingReq := by
          have := popFirst_sat hpop
          exact beq_iff_eq.1 this
        have := filter_popFirst_of_not (q := fun task => task.requestId == r) hpop (by rw [htask]; simpa using hid)
        exact fun h => hq (this.symm.trans h)
      · exact hq
  | park => exact .inl (hsame rfl rfl)
  | _ => exact .inl (hsame rfl rfl)

theorem aimed_threadStep (h : ThreadStep p t o pc p' pc') (hin : pc.inWake r = true) (hset : ∀ i, pc ≠ .wakeSet r i)
    (ha : pc.Aimed p r) {c : RequestContext τ κ} (hc : p.ctxs r = [c]) (hq : p.queued c.workerIdx r ≠ []) :
    pc'.inWake r = true ∧ pc'.Aimed p r := by
  cases h with
  | wakeFindSome r' ctx hf =>
    obtain rfl : r' = r := by simpa [Pc.inWake] using hin
    rw [findReqContext_eq, hc] at hf
    cases hf
    exact ⟨hin, c, hc ▸ List.mem_singleton_self c, rfl⟩
  | wakeFindNone r' hf =>
    obtain rfl : r' = r := by simpa [Pc.inWake] using hin
    rw [findReqContext_eq, hc] at hf
    cases hf
  | wakeRead r' x =>
    obtain rfl : r' = r := by simpa [Pc.inWake] using hin
    obtain ⟨c', hmem, rfl⟩ := ha
    rw [hc, List.mem_singleton] at hmem
    subst hmem
    have hd : p.deref r' c'.owner = some c' := by
      rw [deref_eq, hc]
      simp
    refine ⟨hin, ?_⟩
    rw [hd]
    exact hq
  | wakeSet r' i hm =>
    obtain rfl : r' = r := by simpa [Pc.inWake] using hin
    exact absurd rfl (hset i)
  | _ => cases hin

end Pool

open Lts
namespace PoolSys
variable {τ α κ : Type} [DecidableEq τ]

/-- The call `u` is a wake-up of `r` on its way, the slot `i` holds one. -/
def Bears (r : UInt32) (s : PoolSys τ α κ) : τ ⊕ Fin 64 → Prop
  | .inl u => (s.threads u).inWake r = true
  | .inr i => (s.pool.workers i).pendingReq = r

/-- Where the wake-up is aimed at. -/
def OnTarget (r : UInt32) (s : PoolSys τ α κ) : τ ⊕ Fin 64 → Prop
  | .inl u => (s.threads u).Aimed s.pool r
  | .inr i => s.pool.queued i r ≠ []

/-- The step stores another id over `r`. -/
def overwrites (r : UInt32) (s : PoolSys τ α κ) : Act τ α κ → Bool
  | .thread u _ =>
    match s.threads u with
    | .wakeSet r' i => r' != r && (s.pool.workers i).pendingReq == r
    | _ => false
  | _ => false

/-- A cancel of `r` is called. -/
def cancels (r : UInt32) : Act τ α κ → Bool
  | .call _ c _ => c.cancelOf r
  | _ => false

/-- `t` submits `r`, nobody cancels it, and it is woken when it has tasks and no wake-up. -/
@[mk_iff]
structure PacedAct (r : UInt32) (t : τ) (s : PoolSys τ α κ) (a : Act τ α κ) : Prop where
  solo : SoloAct r t s a
  kept : overwrites r s a = false
  uncancelled : cancels r a = false
  due : wakers r a ≠ [] → (s.threads t).isDone = true ∧ (∃ i, s.pool.queued i r ≠ []) ∧ ∀ x, ¬ Bears r s x

/-- There is one wake-up of `r` at most, made after `t` has returned, and it is aimed at a worker with tasks of `r`. -/
structure Paced (r : UInt32) (t : τ) (s : PoolSys τ α κ) : Prop where
  roles : ∀ u, u ≠ t → (s.view r).role u = .none
  lone : ∀ x y, Bears r s x → Bears r s y → x = y
  due : ∀ x, Bears r s x → (s.threads t).isDone = true ∧ ∃ i, s.pool.queued i r ≠ []
  aimed : ∀ x, Bears r s x → OnTarget r s x

variable {r : UInt32} {t : τ} {s s' : PoolSys τ α κ} {a : Act τ α κ}

omit [DecidableEq τ] in
theorem not_bears_start (hr : r ≠ 0) (x : τ ⊕ Fin 64) : ¬ Bears r (start : PoolSys τ α κ) x := by
  intro hx
  cases x with
  | inl u => cases hx
  | inr i => exact hr hx.symm

omit [DecidableEq τ] in
theorem paced_start (hr : r ≠ 0) (t : τ) : Paced r t (start : PoolSys τ α κ) where
  roles _ _ := rfl
  lone x _ hx := absurd hx (not_bears_start hr x)
  due x hx := absurd hx (not_bears_start hr x)
  aimed x hx := absurd hx (not_bears_start hr x)

omit [DecidableEq τ] in
/-- Where tasks of `r` are queued after its submission has returned, its one context is bound to their worker. -/
theorem Solo.live (h : Solo r t s) (ht : (s.threads t).isDone = true) (hq : ∃ i, s.pool.queued i r ≠ []) :
    ∃ c, s.pool.ctxs r = [c] ∧ s.pool.queued c.workerIdx r ≠ [] ∧ ∀ i, s.pool.queued i r ≠ [] → i = c.workerIdx := by
  obtain ⟨i, hi⟩ := hq
  cases h.account.stage with
  | settled hq hres hr => exact absurd (hq i) hi
  | live w c d hc hw hne hn hlt hdw hq hd' hr =>
    subst hw
    refine ⟨c, hc, hne, fun j hj => ?_⟩
    by_contra hjc
    exact hj (hq j hjc)
  | cancelling u c n hc hn hu hq hd hr => exact absurd (hq i) hi
  | window u w nodes hres hu hlen hq hq' hr => exact absurd ⟨u, w, nodes, hu.imp_right And.left⟩ (h.not_open ht)

omit [DecidableEq τ] in
/-- The context outlives a step that leaves tasks. -/
theorem Solo.ctxs_kept (h : Solo r t s) (h' : Solo r t s') (ht : (s.threads t).isDone = true)
    (ht' : (s'.threads t).isDone = true) (hq : ∃ i, s.pool.queued i r ≠ [])
    (hq' : ∀ i, s.pool.queued i r ≠ [] → s'.pool.queued i r ≠ [])
    (hno : ∀ c ∈ s'.pool.ctxs r, ∃ c₀ ∈ s.pool.ctxs r, c.owner = c₀.owner) :
    ∀ c ∈ s.pool.ctxs r, ∃ c' ∈ s'.pool.ctxs r, c'.owner = c.owner := by
  obtain ⟨c₀, hc₀, -, -⟩ := h.live ht hq
  obtain ⟨c', hc', -, -⟩ := h'.live ht' (hq.imp hq')
  intro c hc
  rw [hc₀, List.mem_singleton] at hc
  subst hc
  have hmem : c' ∈ s'.pool.ctxs r := hc' ▸ List.mem_singleton_self c'
  obtain ⟨c₁, hc₁, howner⟩ := hno c' hmem
  rw [hc₀, List.mem_singleton] at hc₁
  exact ⟨c', hmem, hc₁ ▸ howner⟩

omit [DecidableEq τ] in
theorem enter_not_inWake (p : Pool τ α κ) {u : τ} {c : Call α κ} (o : Oracle) (h : wakers r (.call u c o) = []) :
    (enter p o c).inWake r = false := by
  cases c with
  | wakeUp r' =>
    by_contra hin
    have hr : r' = r := by simpa [enter, Pc.inWake] using hin
    rw [wakers, if_pos hr] at h
    cases h
  | cancel r' =>
    simp only [enter]
    split <;> rfl
  | submitTask r' arg cb =>
    simp only [enter]
    split <;> rfl
  | submitBatch b =>
    simp only [enter]
    split
    · rfl
    split
    · rfl
    split <;> rfl

omit [DecidableEq τ] in
theorem call_of_wakers {u : τ} {c : Call α κ} {o : Oracle} (h : wakers r (.call u c o) ≠ []) : c = .wakeUp r := by
  cases c with
  | wakeUp r' =>
    by_contra hne
    refine h (if_neg ?_)
    rintro rfl
    exact hne rfl
  | _ => exact absurd rfl h

namespace Paced

omit [DecidableEq τ] in
theorem frame (h : Paced r t s) (hsolo : Solo r t s) (hsolo' : Solo r t s')
    (hroles : ∀ u, u ≠ t → (s'.view r).role u = .none) (hb : ∀ x, Bears r s' x → Bears r s x)
    (hdone : (s.threads t).isDone = true → (s'.threads t).isDone = true)
    (hq : (s.threads t).isDone = true → ∀ i, s.pool.queued i r ≠ [] → s'.pool.queued i r ≠ [])
    (hno : (s.threads t).isDone = true → ∀ c ∈ s'.pool.ctxs r, ∃ c₀ ∈ s.pool.ctxs r, c.owner = c₀.owner)
    (haim : ∀ u, Bears r s' (.inl u) → (s'.threads u).Aimed s.pool r) : Paced r t s' := by
  refine ⟨hroles, fun x y hx hy => h.lone x y (hb x hx) (hb y hy), fun x hx => ?_, fun x hx => ?_⟩
  · obtain ⟨ht, hne⟩ := h.due x (hb x hx)
    exact ⟨hdone ht, hne.imp (hq ht)⟩
  · obtain ⟨ht, hne⟩ := h.due x (hb x hx)
    cases x with
    | inl u => exact Pool.aimed_mono (haim u hx) (hq ht) (hsolo.ctxs_kept hsolo' ht (hdone ht) hne (hq ht) (hno ht))
    | inr i => exact hq ht i (h.aimed _ (hb _ hx))

theorem call (h : Paced r t s) (hsolo : Solo r t s) {u : τ} {c : Call α κ} {o : Oracle}
    (ha : PacedAct r t s (.call u c o)) (hsolo' : Solo r t (s.setThread u (enter s.pool o c)))
    (hdone : (s.threads t).isDone = true → ((s.setThread u (enter s.pool o c)).threads t).isDone = true) :
    Paced r t (s.setThread u (enter s.pool o c)) := by
  have hroles : ∀ v, v ≠ t → ((s.setThread u (enter s.pool o c)).view r).role v = .none := by
    intro v hv
    change ((s.setThread u (enter s.pool o c)).threads v).role r = .none
    rw [setThread_threads]
    split
    · exact enter_role_none _ _ _ ha.uncancelled
    · exact h.roles v hv
  by_cases hw : wakers r (Act.call (κ := κ) u c o) = []
  · have hin := enter_not_inWake s.pool o hw
    have hb : ∀ x, Bears r (s.setThread u (enter s.pool o c)) x → Bears r s x := by
      intro x hx
      cases x with
      | inl v =>
        simp only [Bears, setThread_threads] at hx
        split at hx
        · rw [hin] at hx
          cases hx
        · exact hx
      | inr i => exact hx
    refine h.frame hsolo hsolo' hroles hb hdone (fun _ _ hq => hq) (fun _ c hc => ⟨c, hc, rfl⟩) fun v hv => ?_
    have hbv := hb _ hv
    simp only [Bears, setThread_threads] at hv
    rw [setThread_threads]
    split at hv
    · rw [hin] at hv
      cases hv
    · rename_i hvu
      rw [if_neg hvu]
      exact h.aimed _ hbv
  · obtain ⟨ht, hq, hquiet⟩ := ha.due hw
    obtain rfl := call_of_wakers hw
    have hself : ∀ x, Bears r (s.setThread u (.wakeFind r)) x → x = .inl u := by
      intro x hx
      cases x with
      | inl v =>
        simp only [Bears, setThread_threads] at hx
        split at hx
        · rename_i hv
          rw [hv]
        · exact absurd hx (hquiet (.inl v))
      | inr i => exact absurd hx (hquiet (.inr i))
    refine ⟨hroles, fun x y hx hy => (hself x hx).trans (hself y hy).symm, fun x _ => ⟨hdone ht, hq⟩, fun x hx => ?_⟩
    obtain rfl := hself x hx
    change ((s.setThread u (.wakeFind r)).threads u).Aimed s.pool r
    rw [setThread_threads, if_pos rfl]
    trivial

theorem worker (h : Paced r t s) (hr : r ≠ 0) (hsolo : Solo r t s) {i : Fin 64} {o : Oracle} {p : Pool τ α κ}
    (hp : Pool.WorkerStep s.pool i o p) (hsolo' : Solo r t { s with pool := p }) : Paced r t { s with pool := p } := by
  have hb : ∀ x, Bears r { s with pool := p } x → Bears r s x := by
    intro x hx
    cases x with
    | inl u => exact hx
    | inr j =>
      rcases Pool.workerStep_slot hp j with hw | hw
      · exact hw.symm.trans hx
      · exact absurd (hx.symm.trans hw) hr
  by_cases hslot : (s.pool.workers i).pendingReq = r ∧ (p.workers i).pendingReq = 0
  · -- the only wake-up has done its work
    have hnone : ∀ x, ¬ Bears r { s with pool := p } x := by
      intro x hx
      obtain rfl := h.lone x (.inr i) (hb x hx) hslot.1
      exact hr (hx.symm.trans hslot.2)
    exact ⟨h.roles, fun x _ hx => absurd hx (hnone x), fun x hx => absurd hx (hnone x),
      fun x hx => absurd hx (hnone x)⟩
  · refine h.frame hsolo hsolo' h.roles hb id (fun _ j hq => (Pool.queued_workerStep hp hq).resolve_right hslot)
      (fun _ c hc => ?_) fun u hu => h.aimed _ (hb _ hu)
    obtain ⟨c₀, hc₀, howner, -⟩ := hp.noNew.ctxs hc
    exact ⟨c₀, hc₀, howner⟩

section
variable {u : τ} {o : Oracle} {p : Pool τ α κ} {pc : Pc τ α κ}

theorem roles_thread (h : Paced r t s) (hsolo : Solo r t s) (hp : Pool.ThreadStep s.pool u o (s.threads u) p pc) {v : τ}
    (hv : v ≠ t) : (({ s with pool := p }.setThread u pc).view r).role v = .none := by
  change (({ s with pool := p }.setThread u pc).threads v).role r = .none
  rw [setThread_threads]
  split
  · rename_i hvu
    subst hvu
    exact Pool.threadStep_role hp (h.roles v hv) fun b hb hid => hv (hsolo.only v b hb hid)
  · exact h.roles v hv

theorem stored (h : Paced r t s) (hsolo : Solo r t s) (hp : Pool.ThreadStep s.pool u o (s.threads u) p pc) {i : Fin 64}
    (hi : s.threads u = .wakeSet r i)
    (hdone : (s.threads t).isDone = true → (({ s with pool := p }.setThread u pc).threads t).isDone = true) :
    Paced r t ({ s with pool := p }.setThread u pc) := by
  have hbu : Bears r s (.inl u) := by simp [Bears, hi, Pc.inWake]
  obtain ⟨ht, hne⟩ := h.due _ hbu
  have hqi : s.pool.queued i r ≠ [] := by
    have haimed : (s.threads u).Aimed s.pool r := h.aimed _ hbu
    rwa [hi] at haimed
  have hqueued : ∀ j, s.pool.queued j r ≠ [] → p.queued j r ≠ [] := fun j hj =>
    Pool.queued_threadStep hp (by rw [hi]; rfl) hj
  have hpc : pc.inWake r = false := by
    rw [hi] at hp
    cases hp
    rfl
  have honly : ∀ x, Bears r s x → x = .inl u := fun x hx => h.lone x _ hx hbu
  have hslot : ∀ x, Bears r ({ s with pool := p }.setThread u pc) x → x = .inr i := by
    intro x hx
    cases x with
    | inl v =>
      exfalso
      simp only [Bears, setThread_threads] at hx
      split at hx
      · rw [hpc] at hx
        cases hx
      · rename_i hv
        exact hv (Sum.inl.inj (honly (.inl v) hx))
    | inr j =>
      rcases Pool.threadStep_slot hp j with hw | ⟨r', hset, -⟩
      · cases honly (.inr j) (hw.symm.trans hx)
      · cases hi.symm.trans hset
        rfl
  refine ⟨fun v => h.roles_thread hsolo hp, fun x y hx hy => (hslot x hx).trans (hslot y hy).symm,
    fun x _ => ⟨hdone ht, hne.imp hqueued⟩, fun x hx => ?_⟩
  obtain rfl := hslot x hx
  exact hqueued i hqi

theorem thread (h : Paced r t s) (hsolo : Solo r t s) (hp : Pool.ThreadStep s.pool u o (s.threads u) p pc)
    (hsolo' : Solo r t ({ s with pool := p }.setThread u pc))
    (hdone : (s.threads t).isDone = true → (({ s with pool := p }.setThread u pc).threads t).isDone = true) :
    Paced r t ({ s with pool := p }.setThread u pc) := by
  by_cases hset : ∃ i, s.threads u = .wakeSet r i
  · obtain ⟨i, hi⟩ := hset
    exact h.stored hsolo hp hi hdone
  have hb : ∀ x, Bears r ({ s with pool := p }.setThread u pc) x → Bears r s x := by
    intro x hx
    cases x with
    | inl v =>
      simp only [Bears, setThread_threads] at hx
      split at hx
      · rename_i hv
        subst hv
        exact Pool.threadStep_inWake hp hx
      · exact hx
    | inr j =>
      rcases Pool.threadStep_slot hp j with hw | ⟨r', hpc, hw⟩
      · exact hw.symm.trans hx
      · obtain rfl : r' = r := hw.symm.trans hx
        exact absurd ⟨j, hpc⟩ hset
  -- a call that has returned takes no step
  have hut : (s.threads t).isDone = true → u ≠ t := by
    rintro ht rfl
    obtain ⟨ret, hret⟩ := Pc.isDone_iff.1 ht
    rw [hret] at hp
    cases hp
  refine h.frame hsolo hsolo' (fun v => h.roles_thread hsolo hp) hb hdone (fun ht i hq => ?_) (fun ht c hc => ?_)
    fun v hv => ?_
  · exact Pool.queued_threadStep hp (h.roles u (hut ht)) hq
  · rcases hp.noNew with hnew | ⟨b, i, nodes, hpc, rfl, rfl⟩
    · obtain ⟨c₀, hc₀, howner, -⟩ := hnew.ctxs hc
      exact ⟨c₀, hc₀, howner⟩
    · rw [setThread_pool, Pool.insertReqContext_ctxs, if_neg] at hc
      · exact ⟨c, hc, rfl⟩
      · intro hid
        exact hut ht (hsolo.only u b (by rw [hpc]; rfl) hid)
  · have hbv := hb _ hv
    rw [setThread_threads]
    split
    · rename_i hvu
      subst hvu
      obtain ⟨ht, hne⟩ := h.due _ hbv
      obtain ⟨c, hc, hq, -⟩ := hsolo.live ht hne
      exact (Pool.aimed_threadStep hp hbv (fun i hi => hset ⟨i, hi⟩) (h.aimed _ hbv) hc hq).2
    · exact h.aimed _ hbv

end

theorem step (h : Paced r t s) (hr : r ≠ 0) (hsolo : Solo r t s) (hsolo' : Solo r t s') (ha : PacedAct r t s a)
    (hs : s.step a = some s') : Paced r t s' := by
  have hdone : (s.threads t).isDone = true → (s'.threads t).isDone = true := by
    intro ht
    obtain ⟨ret, hret⟩ := Pc.isDone_iff.1 ht
    rw [done_step hret hs]
    exact Pc.isDone_iff.2 ⟨ret, rfl⟩
  cases step_cases hs with
  | call u c o hu => exact h.call hsolo ha hsolo' hdone
  | thread u o p pc hp => exact h.thread hsolo hp hsolo' hdone
  | worker i o p hp => exact h.worker hr hsolo hp hsolo'

omit [DecidableEq τ] in
theorem not_wastes (h : Paced r t s) (ha : PacedAct r t s a) : wastes r s a = false := by
  by_contra hw
  cases a with
  | call u c o => exact hw rfl
  | thread u o =>
    have hk := ha.kept
    simp only [overwrites, wastes] at hk hw
    generalize hpc : s.threads u = pc at hk hw
    cases pc with
    | wakeSet r' i =>
      have hslot : (s.pool.workers i).pendingReq = r := by simpa using hw
      obtain rfl : r' = r := by
        by_contra hne
        simp [hne, hslot] at hk
      have := h.lone (.inl u) (.inr i) (by simp [Bears, hpc, Pc.inWake]) hslot
      cases this
    | _ => exact hw rfl
  | worker i o =>
    simp only [wastes] at hw
    generalize hpc : (s.pool.workers i).pc = pc at hw
    cases pc with
    | wait =>
      obtain ⟨hslot, hq⟩ : (s.pool.workers i).pendingReq = r ∧ s.pool.queued i r = [] := by simpa using hw
      exact h.aimed (.inr i) hslot hq
    | _ => exact hw rfl

end Paced

theorem wakers_answered_step {l : List τ} (h : Paced r t s) (hsolo : Solo r t s) (hw : Wakers r l s)
    (hl : ∀ u ∈ l, (s.threads u).inWake r = true ∨ (s.threads u).returnedZero = true) (hs : s.step a = some s') :
    ∀ u ∈ l ++ wakers r a, (s'.threads u).inWake r = true ∨ (s'.threads u).returnedZero = true := by
  intro u hu
  cases step_cases hs with
  | worker i o p hp =>
    rw [show wakers r (Act.worker i o : Act τ α κ) = [] from rfl, List.append_nil] at hu
    exact hl u hu
  | call v c o hv =>
    rw [setThread_threads]
    split
    · rename_i huv
      subst huv
      rcases List.mem_append.1 hu with hu | hu
      · exact absurd hv (hw.called u hu).1
      · obtain rfl := call_of_wakers (List.ne_nil_of_mem hu)
        exact .inl (by simp [enter, Pc.inWake])
    · rename_i huv
      rcases List.mem_append.1 hu with hu | hu
      · exact hl u hu
      · obtain rfl := call_of_wakers (List.ne_nil_of_mem hu)
        rw [wakers, if_pos rfl, List.mem_singleton] at hu
        exact absurd hu huv
  | thread v o p pc hp =>
    rw [show wakers r (Act.thread v o : Act τ α κ) = [] from rfl, List.append_nil] at hu
    rw [setThread_threads]
    split
    · rename_i huv
      subst huv
      rcases hl u hu with hin | hz
      · by_cases hset : ∃ i, s.threads u = .wakeSet r i
        · obtain ⟨i, hi⟩ := hset
          rw [hi] at hp
          cases hp
          exact .inr rfl
        · obtain ⟨ht, hne⟩ := h.due (.inl u) hin
          obtain ⟨c, hc, hq, -⟩ := hsolo.live ht hne
          exact .inl (Pool.aimed_threadStep hp hin (fun i hi => hset ⟨i, hi⟩) (h.aimed (.inl u) hin) hc hq).1
      · generalize s.threads u = pc₀ at hp hz
        cases hp <;> cases hz
    · exact hl u hu

/-- What holds in a run of paced wake-ups. -/
structure PacedRun (r : UInt32) (t : τ) (s : PoolSys τ α κ) : Prop where
  tracked : ∀ u, Tracked s u
  solo : Solo r t s
  paced : Paced r t s

theorem pacedRun_start (hr : r ≠ 0) (t : τ) : PacedRun r t (start : PoolSys τ α κ) :=
  ⟨tracked_start, solo_start r t, paced_start hr t⟩

theorem PacedRun.step (h : PacedRun r t s) (hr : r ≠ 0) (ha : PacedAct r t s a) (hs : s.step a = some s') :
    PacedRun r t s' := by
  have hsolo := h.solo.step h.tracked ha.solo hs
  exact ⟨tracked_step h.tracked hs, hsolo, h.paced.step hr h.solo hsolo ha hs⟩

omit [DecidableEq τ] in
theorem slotsOf_le_one (h : Paced r t s) : s.pool.slotsOf r ≤ 1 := by
  refine holders_le_one _ r fun i j hi hj => ?_
  exact Sum.inr.inj (h.lone (.inr i) (.inr j) hi hj)

/-- In every run in which `r` is submitted once, not cancelled and woken one wake-up at a time, whatever else is
interleaved, each wake-up of `r` finds its context and returns 0, and those that have returned are as many as the
tasks of `r` that workers have taken, but for one at most that stands in a slot. -/
theorem paced_wakes {xs : List (Act τ α κ × Tenant τ)} (hr : r ≠ 0)
    (ha : Along memStep (fun s x => PacedAct r t s x.1 ∧ OthersSound r s x) start xs) (he : exec memStep start xs = some s) :
    (∀ u ∈ (xs.map Prod.fst).flatMap (wakers r), (s.threads u).inWake r = true ∨ (s.threads u).returnedZero = true) ∧
      ((xs.map Prod.fst).flatMap (wakers r)).countP (fun u => (s.threads u).returnedZero) =
        s.pool.takesOf r + s.pool.slotsOf r ∧
      s.pool.slotsOf r ≤ 1 := by
  obtain ⟨he, ha⟩ := exec_solo (fun _ _ h => h.solo) ha he
  generalize xs.map Prod.fst = as at he ha ⊢
  have hstep : ∀ (s : PoolSys τ α κ) a s', PacedRun r t s → PacedAct r t s a → s.step a = some s' → PacedRun r t s' :=
    fun s a s' hi ha hs => hi.step hr ha hs
  have hwastes : tally PoolSys.step (wastes r) start as = 0 :=
    (tally_eq_zero he).2 (Along.of_inv hstep (fun s a hi ha => hi.paced.not_wastes ha) (pacedRun_start hr t) ha)
  have hanswered := exec_inv_acts (I := fun as (s : PoolSys τ α κ) => PacedRun r t s ∧ Wakers r (as.flatMap (wakers r)) s ∧
      ∀ u ∈ as.flatMap (wakers r), (s.threads u).inWake r = true ∨ (s.threads u).returnedZero = true) (l := [])
    (fun l s a s' hi ha hs => by
      obtain ⟨hrun, hw, hl⟩ := hi
      refine ⟨hstep s a s' hrun ha hs, by simpa using hw.step hs, ?_⟩
      simpa using wakers_answered_step hrun.paced hrun.solo hw hl hs)
    ⟨pacedRun_start hr t, wakers_start r, fun u hu => by cases hu⟩ ha he
  obtain ⟨hrun, -, hl⟩ := hanswered
  refine ⟨hl, ?_, slotsOf_le_one hrun.paced⟩
  rw [← (callers he r).count, balanced_of_exec he hr, hwastes, Nat.add_zero]

/-! ### Two tasks, woken one after the other -/

instance decidableBears (r : UInt32) (s : PoolSys τ α κ) : ∀ x, Decidable (Bears r s x)
  | .inl u => inferInstanceAs (Decidable ((s.threads u).inWake r = true))
  | .inr i => inferInstanceAs (Decidable ((s.pool.workers i).pendingReq = r))

instance decidablePacedAct [Fintype τ] (r : UInt32) (t : τ) (s : PoolSys τ α κ) (a : Act τ α κ) :
    Decidable (PacedAct r t s a) :=
  decidable_of_iff _ (pacedAct_iff r t s a).symm

/-- The submission of two tasks, and the wake-ups of `pacedRun`. -/
def pacedFromStart : List (Act (Fin 3) Unit Unit) :=
  .call 0 (.submitBatch twoTasks) {} :: List.replicate 6 (.thread 0 {}) ++ pacedRun

def pacedFromStartEnd : PoolSys (Fin 3) Unit Unit := last PoolSys.step start pacedFromStart (by decide +kernel)

example : pacedFromStartEnd.pool.takesOf 7 = 2 := by decide +kernel

theorem pacedFromStartEnd_wakes :
    (∀ u ∈ ((quiet pacedFromStart).map Prod.fst).flatMap (wakers 7), (pacedFromStartEnd.threads u).inWake 7 = true ∨
        (pacedFromStartEnd.threads u).returnedZero = true) ∧
      (((quiet pacedFromStart).map Prod.fst).flatMap (wakers 7)).countP (fun u => (pacedFromStartEnd.threads u).returnedZero) =
        pacedFromStartEnd.pool.takesOf 7 + pacedFromStartEnd.pool.slotsOf 7 ∧
      pacedFromStartEnd.pool.slotsOf 7 ≤ 1 :=
  have hrun : exec memStep start (quiet pacedFromStart) = some pacedFromStartEnd :=
    (exec_quiet (by decide +kernel)).2 (exec_last _)
  paced_wakes (t := 0) (by decide) (by decide +kernel) hrun

end PoolSys
end OsTransport
