import OsTransport.Lib.Holders
import OsTransport.Sequential

/-!
# Exact counts between operations

Also when an id is submitted again while it has tasks outstanding, on whatever worker they are queued: a
context exists exactly while tasks of the id are queued somewhere, and its `pending_count` is their number
over all workers. `View.Ledger` says this of every moment of a wake-up with the execution it leads to and
of a cancel; a submission on an idle pool leaves one of the two pools of `Submitted`.
-/

namespace OsTransport

/-- The contexts of a request that has `n` tasks outstanding. -/
def Balance {τ κ : Type} (ctxs : List (RequestContext τ κ)) (n : Nat) : Prop :=
  ctxs = [] ∧ n = 0 ∨ ∃ c, ctxs = [c] ∧ 0 < n ∧ c.pendingCount = Int32.ofNat n

namespace View
variable {τ α κ : Type}
open Function (update update_self update_of_ne)

/-- The tasks of the request that are queued, on all workers. -/
def total (v : View τ α κ) : Nat := ∑ i, (v.queued i).length

theorem total_update (v : View τ α κ) (i : Fin 64) (l : List (ThreadPoolTask τ α κ)) :
    ∑ j, (update v.queued i l j).length + (v.queued i).length = v.total + l.length := by
  have hcomp : (fun j => (update v.queued i l j).length) = update (fun j => (v.queued j).length) i l.length := by
    funext j
    exact Function.apply_update (fun _ => List.length) v.queued i l j
  rw [hcomp]
  exact sum_update (fun j => (v.queued j).length) i l.length

theorem le_total (v : View τ α κ) (i : Fin 64) : (v.queued i).length ≤ v.total :=
  Finset.single_le_sum (f := fun j => (v.queued j).length) (fun _ _ => Nat.zero_le _) (Finset.mem_univ i)

theorem total_eq_zero {v : View τ α κ} : v.total = 0 ↔ ∀ i, v.queued i = [] := by
  simp [total, Finset.sum_eq_zero_iff]

/-- The count of the request at every moment of the operation `t`, which submits nothing. -/
inductive Ledger (t : τ) (v : View τ α κ) : Prop
  | rest (h : Balance v.ctxs v.total) (hd : ∀ i, v.duty i = .none) (ht : (v.role t).calm)
      (hptr : ∀ c ∈ v.ctxs, (v.role t).pointsAt c) (hr : ∀ u, u ≠ t → v.role u = .none)
  /-- worker `i` has taken a task that still counts -/
  | working (i : Fin 64) (c : RequestContext τ κ) (hc : v.ctxs = [c])
      (hn : c.pendingCount = Int32.ofNat (v.total + 1)) (hd : v.duty i = .counted ∨ v.duty i = .dec c.owner)
      (hd' : ∀ j, j ≠ i → v.duty j = .none) (hr : ∀ u, v.role u = .none)
  /-- worker `i` has run the last task and is about to remove the context -/
  | retiring (i : Fin 64) (c : RequestContext τ κ) (hc : v.ctxs = [c]) (hz : v.total = 0)
      (hd : v.duty i = .retiring) (hd' : ∀ j, j ≠ i → v.duty j = .none) (hr : ∀ u, v.role u = .none)
  /-- the cancel has removed `n` tasks and not corrected the count -/
  | cancelling (c : RequestContext τ κ) (n : Nat) (hc : v.ctxs = [c])
      (hn : c.pendingCount = Int32.ofNat (v.total + n)) (ht : v.role t = .cancelUpdate c.owner (UInt32.ofNat n))
      (hd : ∀ i, v.duty i = .none) (hr : ∀ u, u ≠ t → v.role u = .none)

end View

/-- The marked steps of an operation that submits nothing, once it is entered: a task is taken while nobody
else is busy with the request. -/
def Mark.Alone {τ α κ : Type} (v : View τ α κ) : Mark → Prop
  | .plain => True
  | .take => (∀ i, v.duty i = .none) ∧ ∀ t, v.role t = .none
  | .attach | .hit | .noContext | .cancel => False

namespace View
variable {τ α κ : Type} {v v' : View τ α κ}
open Function (update update_self update_of_ne)

theorem Step.total_le [DecidableEq τ] {m : Mark} (hs : Step v m v') (hm : m ≠ .attach) : v'.total ≤ v.total := by
  cases hs with
  | take i x rest hd hq =>
    have := v.total_update i rest
    rw [hq, List.length_cons] at this
    show ∑ j, (update v.queued i rest j).length ≤ v.total
    omega
  | attach => exact absurd rfl hm
  | cancelQueue t x i hr hd =>
    have := v.total_update i []
    show ∑ j, (update v.queued i [] j).length ≤ v.total
    simp only [List.length_nil] at this
    omega
  | _ => exact Nat.le_refl _

namespace Ledger
variable {t : τ}

theorem duty_cases (h : v.Ledger t) {i : Fin 64} (hi : v.duty i ≠ .none) :
    (∀ j, j ≠ i → v.duty j = .none) ∧ (∀ u, v.role u = .none) ∧ ∃ c, v.ctxs = [c] ∧
      ((v.duty i = .counted ∨ v.duty i = .dec c.owner) ∧ c.pendingCount = Int32.ofNat (v.total + 1) ∨
        v.duty i = .retiring ∧ v.total = 0) := by
  cases h with
  | rest h hd => exact absurd (hd i) hi
  | working w c hc hn hd hd' hr =>
    obtain rfl : i = w := by
      by_contra hne
      exact hi (hd' i hne)
    exact ⟨hd', hr, c, hc, .inl ⟨hd, hn⟩⟩
  | retiring w c hc hz hd hd' hr =>
    obtain rfl : i = w := by
      by_contra hne
      exact hi (hd' i hne)
    exact ⟨hd', hr, c, hc, .inr ⟨hd, hz⟩⟩
  | cancelling c n hc hn hu hd => exact absurd (hd i) hi

theorem role_cases (h : v.Ledger t) {u : τ} (hu : v.role u ≠ .none) :
    u = t ∧ (∀ i, v.duty i = .none) ∧ (∀ w, w ≠ t → v.role w = .none) ∧
      ((v.role t).calm ∧ Balance v.ctxs v.total ∧ (∀ c ∈ v.ctxs, (v.role t).pointsAt c) ∨
        ∃ c n, v.ctxs = [c] ∧ c.pendingCount = Int32.ofNat (v.total + n) ∧
          v.role t = .cancelUpdate c.owner (UInt32.ofNat n)) := by
  have hne : (∀ w, w ≠ t → v.role w = .none) → u = t := fun hr => by
    by_contra hne
    exact hu (hr u hne)
  cases h with
  | rest h hd ht hptr hr => exact ⟨hne hr, hd, hr, .inl ⟨ht, h, hptr⟩⟩
  | working w c hc hn hd hd' hr => exact absurd (hr u) hu
  | retiring w c hc hz hd hd' hr => exact absurd (hr u) hu
  | cancelling c n hc hn ht hd hr => exact ⟨hne hr, hd, hr, .inr ⟨c, n, hc, hn, ht⟩⟩

theorem calm [DecidableEq τ] (h : v.Ledger t) {u : τ} {x : Role τ α κ} (hu : v.role u ≠ .none)
    (hcalm : (v.role u).calm) (hx : x.calm) (hptr : ∀ c, v.ctxs = [c] → x.pointsAt c) :
    Ledger t { v with role := update v.role u x } := by
  obtain ⟨rfl, hd, hr, ⟨-, hb, -⟩ | ⟨c, n, -, -, ht⟩⟩ := h.role_cases hu
  · refine .rest hb hd (by simpa using hx) (fun c hc => ?_) fun w hw => (update_of_ne hw ..).trans (hr w hw)
    change Role.pointsAt c (update v.role u x u)
    rw [update_self]
    rcases hb with ⟨hnil, -⟩ | ⟨c', hc', -⟩
    · rw [show v.ctxs = [] from hnil] at hc; cases hc
    · obtain rfl : c = c' := by simpa [hc'] using hc
      exact hptr c hc'
  · rw [ht] at hcalm; exact hcalm.elim

theorem take (h : v.Ledger t) {i : Fin 64} {x : ThreadPoolTask τ α κ} {rest : List (ThreadPoolTask τ α κ)}
    (hd : ∀ i, v.duty i = .none) (hr : ∀ u, v.role u = .none) (hq : v.queued i = x :: rest) :
    Ledger t { v with queued := update v.queued i rest, duty := update v.duty i .counted } := by
  have htotal : v.total = (∑ j, (update v.queued i rest j).length) + 1 := by
    have := v.total_update i rest
    rw [hq, List.length_cons] at this
    omega
  cases h with
  | rest h _ _ _ _ =>
    obtain ⟨c, hc, -, hn⟩ := h.resolve_left fun h => by omega
    exact .working i c hc (by rw [hn, htotal]; rfl) (.inl (update_self ..))
      (fun j hj => (update_of_ne hj ..).trans (hd j)) hr
  | working w c hc hn hdw => rw [hd w] at hdw; simp at hdw
  | retiring w c hc hz hdw => rw [hd w] at hdw; cases hdw
  | cancelling c n hc hn ht => rw [hr t] at ht; cases ht

theorem found (h : v.Ledger t) {i : Fin 64} {c : RequestContext τ κ} (hd : v.duty i = .counted)
    (hc : v.ctxs.head? = some c) : Ledger t { v with duty := update v.duty i (.dec c.owner) } := by
  obtain ⟨hd', hr, c', hc', ⟨-, hn⟩ | ⟨hret, -⟩⟩ := h.duty_cases (i := i) (by simp [hd])
  · obtain rfl : c' = c := by simpa [hc'] using hc
    exact .working i c' hc' hn (.inr (update_self ..)) (fun j hj => (update_of_ne hj ..).trans (hd' j hj)) hr
  · rw [hd] at hret; cases hret

/-- The last of the counted tasks is told from the others by the count. -/
theorem dec [DecidableEq τ] (h : v.Ledger t) (hlt : v.total < 2 ^ 32) {i : Fin 64} {x : τ}
    {c : RequestContext τ κ} (hd : v.duty i = .dec x)
    (hc : (v.ctxs.map (Pool.bumped x (-1))).find? (fun c => c.owner == x) = some c) :
    Ledger t { v with
      ctxs := v.ctxs.map (Pool.bumped x (-1))
      duty := update v.duty i (if c.pendingCount = 0 then .retiring else .none) } := by
  obtain ⟨hd', hr, c', hc', ⟨hcnt, hn⟩ | ⟨hret, -⟩⟩ := h.duty_cases (i := i) (by simp [hd])
  swap
  · rw [hd] at hret; cases hret
  obtain rfl : x = c'.owner := by simpa [hd] using hcnt
  obtain rfl : Pool.bumped c'.owner (-1) c' = c := by simpa [hc'] using hc
  have hpend : (Pool.bumped c'.owner (-1) c').pendingCount = Int32.ofNat v.total := by
    simp only [Pool.bumped, if_true, hn, Int32.count_dec]
  have hother : ∀ (d : Duty τ) j, j ≠ i → update v.duty i d j = .none := fun d j hj =>
    (update_of_ne hj ..).trans (hd' j hj)
  have hzero : (Pool.bumped c'.owner (-1) c').pendingCount = 0 ↔ v.total = 0 := by
    rw [hpend, Int32.count_eq_zero hlt]
  rw [hc', List.map_singleton]
  by_cases hz : v.total = 0
  · rw [if_pos (hzero.2 hz)]
    exact .retiring i _ rfl hz (update_self ..) (hother _) hr
  · rw [if_neg (mt hzero.1 hz)]
    refine .rest (.inr ⟨_, rfl, Nat.pos_of_ne_zero hz, hpend⟩) (fun j => ?_) ?_ (fun c _ => ?_) fun u _ => hr u
    · rcases eq_or_ne j i with rfl | hj
      · exact update_self ..
      · exact hother _ j hj
    · show (v.role t).calm
      rw [hr t]; trivial
    · show (v.role t).pointsAt c
      rw [hr t]; trivial

theorem retire (h : v.Ledger t) {i : Fin 64} (hd : v.duty i = .retiring) :
    Ledger t { v with ctxs := v.ctxs.tail, duty := update v.duty i .none } := by
  obtain ⟨hd', hr, c', hc', ⟨hcnt, -⟩ | ⟨-, hz⟩⟩ := h.duty_cases (i := i) (by simp [hd])
  · rw [hd] at hcnt; simp at hcnt
  · rw [hc']
    refine .rest (.inl ⟨rfl, hz⟩) (fun j => ?_) ?_ (fun c hc => by cases hc) fun u _ => hr u
    · rcases eq_or_ne j i with rfl | hj
      · exact update_self ..
      · exact (update_of_ne hj ..).trans (hd' j hj)
    · show (v.role t).calm
      rw [hr t]; trivial

theorem cancelQueue [DecidableEq τ] (h : v.Ledger t) (hlt : v.total < 2 ^ 32) {u x : τ} {i : Fin 64}
    (hu : v.role u = .cancelQueue x i) :
    Ledger t { v with
      queued := update v.queued i []
      role := update v.role u (if 0 < UInt32.ofNat (v.queued i).length then
        .cancelUpdate x (UInt32.ofNat (v.queued i).length) else .none) } := by
  obtain ⟨rfl, hd, hr, ⟨-, hb, hptr⟩ | ⟨c, n, -, -, ht⟩⟩ := h.role_cases (u := u) (by simp [hu])
  swap
  · rw [hu] at ht; cases ht
  have htotal := v.total_update i []
  rw [List.length_nil, Nat.add_zero] at htotal
  by_cases hq : v.queued i = []
  · have hupd : update v.queued i [] = v.queued := by rw [← hq, Function.update_eq_self]
    rw [hupd, if_neg (by simp [hq])]
    exact h.calm (by simp [hu]) (by rw [hu]; trivial) trivial fun _ _ => trivial
  have hlen := List.length_pos_iff.2 hq
  have hpos : 0 < UInt32.ofNat (v.queued i).length := by
    have hle := v.le_total i
    rw [UInt32.lt_iff_toNat_lt, UInt32.toNat_ofNat', Nat.mod_eq_of_lt (by omega)]
    exact hlen
  rw [if_pos hpos]
  obtain ⟨c, hc, -, hn⟩ := hb.resolve_left fun h => by omega
  obtain ⟨rfl, rfl⟩ : x = c.owner ∧ i = c.workerIdx := by
    simpa [hu, Role.pointsAt] using hptr c (by simp [hc])
  refine .cancelling c (v.queued c.workerIdx).length hc ?_ (update_self ..) hd fun w hw =>
    (update_of_ne hw ..).trans (hr w hw)
  rw [hn]
  exact congrArg Int32.ofNat htotal.symm

/-- The cancel corrects the count, and removes the context when it has removed the last task. -/
theorem cancelUpdate [DecidableEq τ] (h : v.Ledger t) (hlt : v.total < 2 ^ 32) {u x : τ} {n : UInt32}
    (hu : v.role u = .cancelUpdate x n) : ∃ c, v.ctxs = [c] ∧ x = c.owner ∧
      Ledger t { v with
        ctxs := if (Pool.bumped x (-n.toInt32) c).pendingCount = 0 then [] else [Pool.bumped x (-n.toInt32) c]
        role := update v.role u .none } := by
  obtain ⟨rfl, hd, hr, ⟨ht, -⟩ | ⟨c, k, hc, hn, ht⟩⟩ := h.role_cases (u := u) (by simp [hu])
  · rw [hu] at ht; exact ht.elim
  obtain ⟨rfl, rfl⟩ : x = c.owner ∧ n = UInt32.ofNat k := by simpa [hu] using ht
  refine ⟨c, hc, rfl, ?_⟩
  have hpend : (Pool.bumped c.owner (-(UInt32.ofNat k).toInt32) c).pendingCount = Int32.ofNat v.total := by
    simp only [Pool.bumped, if_true, hn, Int32.count_sub]
  have hzero : (Pool.bumped c.owner (-(UInt32.ofNat k).toInt32) c).pendingCount = 0 ↔ v.total = 0 := by
    rw [hpend, Int32.count_eq_zero hlt]
  refine .rest ?_ hd (by simp [Role.calm]) (fun _ _ => by simp [Role.pointsAt]) fun w hw =>
    (update_of_ne hw ..).trans (hr w hw)
  by_cases hz : v.total = 0
  · exact .inl ⟨if_pos (hzero.2 hz), hz⟩
  · exact .inr ⟨_, if_neg (mt hzero.1 hz), Nat.pos_of_ne_zero hz, hpend⟩

theorem step [DecidableEq τ] {m : Mark} (h : v.Ledger t) (hlt : v.total < 2 ^ 32) (hs : Step v m v')
    (hm : m.Alone v) : v'.Ledger t := by
  -- no call is inside a submission
  have hwindow : ∀ {u} {x : Role τ α κ}, v.role u = x → x ≠ .none → ¬ x.calm →
      (∀ y n, x ≠ .cancelUpdate y n) → False := fun {u x} hu hne hcalm hup => by
    obtain ⟨rfl, -, -, ⟨hc, -⟩ | ⟨c, n, -, -, ht⟩⟩ := h.role_cases (u := u) (by rw [hu]; exact hne)
    · rw [hu] at hc; exact hcalm hc
    · rw [hu] at ht; exact hup _ _ ht
  have hhead : ∀ {c}, v.ctxs.head? = some c → ∀ c', v.ctxs = [c'] → c' = c := fun hc c' hc' => by
    simpa [hc'] using hc
  cases hs with
  | refl => exact h
  | take i x rest hd hq => exact h.take hm.1 hm.2 hq
  | found i c hd hc => exact h.found hd hc
  | missing i hd hc =>
    obtain ⟨-, -, c, hc', -⟩ := h.duty_cases (i := i) (by simp [hd])
    rw [hc] at hc'; cases hc'
  | dec i x c hd hc => exact h.dec hlt hd hc
  | decDangling i x d hd hc =>
    obtain ⟨-, -, c, hc', ⟨hcnt, -⟩ | ⟨hret, -⟩⟩ := h.duty_cases (i := i) (by simp [hd])
    · obtain rfl : x = c.owner := by simpa [hd] using hcnt
      simp [hc'] at hc
    · rw [hd] at hret; cases hret
  | retire i hd => exact h.retire hd
  | attach => exact hm.elim
  | hit => exact hm.elim
  | miss u i nodes hr hc => exact (hwindow hr (by simp) id (by simp)).elim
  | bump u x d hr => exact (hwindow hr (by simp) id (by simp)).elim
  | insert u i nodes c hr hc => exact (hwindow hr (by simp) id (by simp)).elim
  | noContext => exact hm.elim
  | cancel => exact hm.elim
  | cancelHit u c hr hc =>
    refine h.calm (by simp [hr]) (by rw [hr]; trivial) trivial fun c' hc' => ?_
    rw [hhead hc c' hc']; rfl
  | cancelMiss u hr hc => exact h.calm (by simp [hr]) (by rw [hr]; trivial) trivial fun _ _ => trivial
  | cancelRead u x i hr hi =>
    refine h.calm (by simp [hr]) (by rw [hr]; trivial) trivial fun c hc => ?_
    obtain ⟨rfl, -, -, ⟨-, -, hptr⟩ | ⟨c, n, -, -, ht⟩⟩ := h.role_cases (u := u) (by simp [hr])
    · have hx : x = c.owner := by simpa [hr, Role.pointsAt] using hptr c (by simp [hc])
      exact ⟨hx, hi c (by simp [hc, hx])⟩
    · rw [hr] at ht; cases ht
  | cancelQueue u x i hr hd => exact h.cancelQueue hlt hr
  | cancelUpdate u x n c hr hc =>
    obtain ⟨c', hc', rfl, hst⟩ := h.cancelUpdate hlt hr
    obtain rfl : Pool.bumped c'.owner (-n.toInt32) c' = c := by simpa [hc'] using hc
    simpa [hc'] using hst
  | cancelUpdateDangling u x n z hr hc =>
    obtain ⟨c', hc', rfl, -⟩ := h.cancelUpdate hlt hr
    simp [hc'] at hc

end Ledger
end View
end OsTransport

namespace OsTransport

/-- The worker waits and has no wake-up to take. -/
def WorkerThread.Parked {τ α κ : Type} (w : WorkerThread τ α κ) : Prop :=
  w.state = .idle ∧ w.pc = .wait ∧ w.pendingReq = 0

open Lts
namespace PoolSys
variable {τ α κ : Type} [DecidableEq τ]

/-! ### Wake-ups and cancels, whatever was submitted before -/

/-- The pool is idle, or the call has returned and one worker may be busy. -/
def Lone (t : τ) (s : PoolSys τ α κ) : Prop :=
  s.pool.Idle ∨ (∃ ret, s.threads t = .done ret) ∧ ∃ i, ∀ j, j ≠ i → (s.pool.workers j).Parked

/-- Every request of the pool has the contexts it should have. -/
def Balanced (s : PoolSys τ α κ) : Prop := ∀ r, Balance (s.pool.ctxs r) (s.view r).total

/-- Inside a wake-up or a cancel, started in `s₀` as call `t`. -/
structure Handling (s₀ : PoolSys τ α κ) (t : τ) (s : PoolSys τ α κ) : Prop where
  calm : (s.threads t).submitting = false
  others : ∀ u, u ≠ t → s.threads u = s₀.threads u
  alive : s.pool.isDestroying = false
  tracked : ∀ u, Tracked s u
  sized : s.pool.Sized
  lone : Lone t s
  ledger : ∀ r, (s.view r).Ledger t
  total : ∀ r, (s.view r).total ≤ (s₀.view r).total

namespace Lone
variable {s s' : PoolSys τ α κ} {t : τ}

theorem worker {i : Fin 64} {o : Oracle} {p : Pool τ α κ} (h : Lone t s) (ha : s.pool.isDestroying = false)
    (hp : Pool.WorkerStep s.pool i o p) : Lone t { s with pool := p } := by
  have hparked : (s.pool.workers i).Parked → Lone t { s with pool := p } := fun hi => by
    obtain rfl := parked_workerStep hi.2.1 hi.2.2 ha hp
    exact h
  rcases h with h | ⟨hret, k, hk⟩
  · exact hparked (h i)
  · rcases eq_or_ne i k with rfl | hne
    · refine .inr ⟨hret, i, fun j hj => ?_⟩
      show (p.workers j).Parked
      rw [Pool.workers_of_ne hp hj]
      exact hk j hj
    · exact hparked (hk i hne)

theorem thread {o : Oracle} {p : Pool τ α κ} {pc : Pc τ α κ} (h : Lone t s)
    (hs : (s.threads t).submitting = false) (hp : Pool.ThreadStep s.pool t o (s.threads t) p pc) :
    Lone t ({ s with pool := p }.setThread t pc) := by
  have hidle : s.pool.Idle := h.resolve_right fun ⟨⟨ret, hret⟩, _⟩ => by rw [hret] at hp; cases hp
  have hsame : p.workers = s.pool.workers → Lone t ({ s with pool := p }.setThread t pc) := fun hw =>
    .inl fun j => by
      show (p.workers j).Parked
      rw [hw]; exact hidle j
  generalize s.threads t = pc₀ at hp hs
  cases hp with
  | wakeSet r i hm =>
    refine .inr ⟨⟨.int 0, by rw [setThread_threads, if_pos rfl]⟩, i, fun j hj => ?_⟩
    show ((s.pool.setWorker i _).workers j).Parked
    rw [Pool.setWorker_workers_ne _ hj]
    exact hidle j
  | cancelQueue r ctx i hm =>
    refine .inl fun j => ?_
    show ((s.pool.setWorker i _).workers j).Parked
    rw [Pool.setWorker_workers]
    split
    · rename_i hj; subst hj; exact hidle j
    · exact hidle j
  | cancelUpdate r ctx n c hd => exact hsame (by split <;> rfl)
  | cancelUpdateDangling r ctx n hd => exact hsame (by split <;> rfl)
  | wakeFindSome | wakeFindNone | wakeRead | cancelFindSome | cancelFindNone | cancelRead => exact hsame rfl
  | _ => cases hs

end Lone

namespace Handling
variable {s₀ s s' : PoolSys τ α κ} {t : τ} {a : Act τ α κ}

theorem alone (h₀ : Quiet s₀) (h : Handling s₀ t s) (ha : OpAct t a) {r : UInt32} {m : Mark}
    (hm : s.Marks r a m) : m.Alone (s.view r) := by
  have hpc : ∀ {u pc}, s.threads u = pc → pc.submitting = true → False := fun {u pc} hu hs => by
    rcases eq_or_ne u t with rfl | hne
    · have := h.calm
      rw [hu, hs] at this; cases this
    · have := h.others u hne
      rcases h₀.calls u with hu' | ⟨ret, hu'⟩ <;> rw [hu, hu'] at this <;> subst this <;> cases hs
  cases m with
  | plain => trivial
  | take =>
    obtain ⟨i, o, -, hwait, hr, hne, -⟩ := hm
    -- a wake-up stands in the slot of worker `i`, so the call has returned and `i` is the busy worker
    rcases h.lone with hidle | ⟨⟨ret, hret⟩, k, hk⟩
    · exact absurd ((hidle i).2.2.symm.trans hr).symm hne
    obtain rfl : i = k := by
      by_contra hik
      exact hne ((hk i hik).2.2.symm.trans hr).symm
    refine ⟨fun j => ?_, fun u => ?_⟩
    · change (s.pool.workers j).pc.duty r = .none
      rcases eq_or_ne j i with rfl | hj
      · rw [hwait]; rfl
      · rw [(hk j hj).2.1]; rfl
    · change (s.threads u).role r = .none
      rcases eq_or_ne u t with rfl | hu
      · rw [hret]; rfl
      · rw [h.others u hu]
        exact h₀.role r u
  | attach =>
    obtain ⟨u, o, b, i, nodes, -, hu, -⟩ := hm
    exact hpc hu rfl
  | hit =>
    obtain ⟨u, o, b, i, nodes, -, hu, -⟩ := hm
    exact hpc hu rfl
  | noContext =>
    obtain ⟨u, o, b, i, nodes, -, hu, -⟩ := hm
    exact hpc hu rfl
  | cancel =>
    obtain ⟨u, o, rfl⟩ := hm
    exact ha.elim

theorem step (h₀ : Quiet s₀) (hlt : ∀ r, (s₀.view r).total < 2 ^ 32) (h : Handling s₀ t s) (ha : OpAct t a)
    (hs : s.step a = some s') : Handling s₀ t s' := by
  have htracked := tracked_step h.tracked hs
  have halive := (step_flags hs).2.trans h.alive
  have hview : ∀ r, (s'.view r).Ledger t ∧ (s'.view r).total ≤ (s₀.view r).total := fun r => by
    obtain ⟨m, hstep, hm⟩ := view_step hs (fun u => (h.tracked u).made) r
    have halone := h.alone h₀ ha hm
    refine ⟨(h.ledger r).step (Nat.lt_of_le_of_lt (h.total r) (hlt r)) hstep halone, ?_⟩
    exact Nat.le_trans (hstep.total_le fun e => by subst e; exact halone) (h.total r)
  cases step_cases hs with
  | call u c o hu => exact ha.elim
  | worker i o p hp =>
    exact ⟨h.calm, h.others, halive, htracked, h.sized.workerStep hp, h.lone.worker h.alive hp,
      fun r => (hview r).1, fun r => (hview r).2⟩
  | thread u o p pc hp =>
    obtain ⟨rfl, -⟩ := ha
    refine ⟨?_, fun v hv => ?_, halive, htracked, ?_, h.lone.thread h.calm hp, fun r => (hview r).1,
      fun r => (hview r).2⟩
    · rw [setThread_threads, if_pos rfl]
      exact submitting_threadStep hp h.calm
    · rw [setThread_threads, if_neg hv]
      exact h.others v hv
    · refine h.sized.threadStep hp (h.tracked u).made fun b i nodes hpc => ?_
      have := h.calm
      rw [hpc] at this; cases this

theorem balanced (h : Handling s₀ t s) (hq : Quiet s) : Balanced s := by
  intro r
  have hd : ∀ i, (s.view r).duty i = .none := fun i => by
    change (s.pool.workers i).pc.duty r = .none
    rw [(hq.workers i).2.1]; rfl
  cases h.ledger r with
  | rest hb => exact hb
  | working i c hc hn hdw => rw [hd i] at hdw; simp at hdw
  | retiring i c hc hz hdw => rw [hd i] at hdw; cases hdw
  | cancelling c n hc hn ht => rw [hq.role r t] at ht; cases ht

end Handling

omit [DecidableEq τ] in
theorem enter_role (p : Pool τ α κ) (o : Oracle) {c : Call α κ} (hc : c.submit? = none) (r : UInt32) :
    ((enter p o c).role r).calm ∧ ∀ ctx, ((enter p o c).role r).pointsAt ctx := by
  cases c with
  | submitTask r' arg cb => cases hc
  | submitBatch b =>
    have hv : b.validate = none := hc
    simp only [enter, hv]
    split <;> exact ⟨trivial, fun _ => trivial⟩
  | wakeUp r' => exact ⟨trivial, fun _ => trivial⟩
  | cancel r' =>
    simp only [enter]
    split
    · simp only [Pc.role]
      split <;> exact ⟨trivial, fun _ => trivial⟩
    · exact ⟨trivial, fun _ => trivial⟩

theorem Ready.handling {s s₁ : PoolSys τ α κ} {t : τ} {c : Call α κ} (h : Ready s) (hb : Balanced s)
    (hc : c.submit? = none) (hcall : s.step (.call t c {}) = some s₁) : Handling s t s₁ := by
  have htracked := tracked_step h.tracked hcall
  have halive := (step_flags hcall).2.trans h.alive
  cases step_cases hcall with
  | call u c o hu =>
    refine ⟨?_, fun v hv => ?_, halive, htracked, h.sized, .inl h.quiet.workers, fun r => ?_, fun r => ?_⟩
    · rw [setThread_threads, if_pos rfl]
      exact enter_submitting _ _ hc
    · rw [setThread_threads, if_neg hv]
    · obtain ⟨hcalm, hptr⟩ := enter_role s.pool {} hc r
      rw [setThread_view]
      refine .rest (hb r) (fun i => ?_) ?_ (fun ctx _ => ?_) fun v hv => ?_
      · change (s.pool.workers i).pc.duty r = .none
        rw [(h.quiet.workers i).2.1]; rfl
      · show (Function.update (s.view r).role t _ t).calm
        rw [Function.update_self]; exact hcalm
      · show (Function.update (s.view r).role t _ t).pointsAt ctx
        rw [Function.update_self]; exact hptr ctx
      · show Function.update (s.view r).role t _ v = .none
        rw [Function.update_of_ne hv]
        exact h.quiet.role r v
    · rw [setThread_view]
      exact Nat.le_refl _

/-! ### Submissions, whatever was submitted before -/

/-- What a submission of `b`, run alone on the idle pool `p₀` as call `t`, makes of it. -/
inductive Submitted (p₀ : Pool τ α κ) (t : τ) (b : Submit α κ) (p : Pool τ α κ) : Ret → Prop
  | refused (hsel : ∀ i, ¬ Selectable p₀ i) (hw : p.workers = p₀.workers) (hr : p.reqHash = p₀.reqHash) :
      Submitted p₀ t b p .null
  | bumped (i : Fin 64) (nodes : List (ThreadPoolTask τ α κ)) (c : RequestContext τ κ) (hsel : Selectable p₀ i)
      (hmade : Made t b nodes) (hlen : nodes.length = b.args.length) (hatt : Attached p₀ p i nodes)
      (hf : p₀.findReqContext b.requestId = some c)
      (hr : p.reqHash = (p₀.addPending b.requestId c.owner b.count.toInt32).reqHash) :
      Submitted p₀ t b p (Pool.taskIds nodes)
  | inserted (i : Fin 64) (nodes : List (ThreadPoolTask τ α κ)) (hsel : Selectable p₀ i)
      (hmade : Made t b nodes) (hlen : nodes.length = b.args.length) (hatt : Attached p₀ p i nodes)
      (hf : p₀.findReqContext b.requestId = none)
      (hr : p.reqHash = (p₀.insertReqContext (Pool.newContext t b i)).reqHash) :
      Submitted p₀ t b p (Pool.taskIds nodes)

theorem Phase.submitted {p₀ p p' : Pool τ α κ} {b : Submit α κ} {t : τ} {o : Oracle} {pc : Pc τ α κ} {ret : Ret}
    (h₀ : Pool.Idle p₀) (h : Phase p₀ b p pc) (hl : pc.Local t) (ho : o.ok = true ∧ o.okNode = true)
    (hs : Pool.ThreadStep p t o pc p' (.done ret)) : Submitted p₀ t b p' ret := by
  have hend := h.step h₀ hl ho hs
  generalize hpc' : Pc.done ret = pc' at hs
  cases hs with
  | select b' nodes i best minLoad hm =>
    obtain ⟨rfl, rfl, -, hw, -⟩ := h
    have hidle : Pool.Idle p := fun j => by rw [hw]; exact h₀ j
    have hnull : ret = .null := by
      rcases selectStep_idle hidle b' nodes i minLoad with ⟨-, hs⟩ | ⟨-, ⟨_, hs⟩ | ⟨-, hs⟩⟩ <;>
        rw [hs] at hpc'
      · unfold Pool.afterSelect at hpc'
        split at hpc' <;> cases hpc'
      · cases hpc'
      · exact Pc.done.inj hpc'
    subst hnull
    exact .refused hend.1 hend.2.1 hend.2.2
  | create b' w nodes arg ha =>
    unfold Pool.afterCreate at hpc'
    split at hpc'
    · cases hpc'
    split at hpc' <;> cases hpc'
  | createFail b' w nodes id ho' => simp [ho] at ho'
  | attachFail b' i nodes ho' => simp [ho] at ho'
  | bump b' nodes ctx =>
    obtain ⟨rfl, i, c, hsel, ⟨size, hatt⟩, hr, hf, rfl⟩ := h
    cases hpc'
    refine .bumped i nodes c hsel hl.1 hl.2 ⟨size, hatt⟩ hf ?_
    simp only [Pool.addPending, Pool.setChain, hr]
  | insert b' i nodes ho' =>
    obtain ⟨rfl, hsel, ⟨size, hatt⟩, hr, hf⟩ := h
    cases hpc'
    refine .inserted i nodes hsel hl.1 hl.2 ⟨size, hatt⟩ hf ?_
    simp only [Pool.insertReqContext, Pool.setChain, hr]
  | insertFail b' i nodes ho' => rw [ho.1] at ho'; cases ho'
  | attach | findSome | findNone => cases hpc'
  | _ => exact h.elim

theorem Ready.submitted {s s' : PoolSys τ α κ} {t : τ} {c : Call α κ} {b : Submit α κ} (h : Ready s)
    (hrun : Complete s t c s') (hc : c.submit? = some b) :
    ∃ ret, s'.threads t = .done ret ∧ Submitted s.pool t b s'.pool ret := by
  obtain ⟨⟨as, has, he⟩, hquiet⟩ := hrun
  obtain ⟨s₁, hcall, he⟩ := exec_cons.1 he
  have hsub := h.submitting hc hcall
  have hstep : ∀ (u : PoolSys τ α κ) (a : Act τ α κ) (u' : PoolSys τ α κ), Submitting s t b u ∧
      (∀ ret, u.threads t = .done ret → Submitted s.pool t b u.pool ret) → OpAct t a → u.step a = some u' →
      Submitting s t b u' ∧ ∀ ret, u'.threads t = .done ret → Submitted s.pool t b u'.pool ret := by
    intro u a u' hi ha hs
    refine ⟨hi.1.step h.quiet.workers ha hs, fun ret hret => ?_⟩
    cases step_cases hs with
    | call v c o hv => exact ha.elim
    | worker i o p hp =>
      obtain rfl := idle_workerStep (hi.1.phase.idle h.quiet.workers) hi.1.alive hp
      exact hi.2 ret hret
    | thread v o p pc hp =>
      obtain ⟨rfl, ho⟩ := ha
      rw [setThread_threads, if_pos rfl] at hret
      subst hret
      exact hi.1.phase.submitted h.quiet.workers (hi.1.tracked v).made ho hp
  have hstart : ∀ ret, s₁.threads t = .done ret → Submitted s.pool t b s₁.pool ret := fun ret hret => by
    have := hsub.phase
    cases step_cases hcall with
    | call u c o hu =>
      rw [setThread_threads, if_pos rfl] at hret
      have hphase := enter_phase h hc
      cases c with
      | submitTask r arg cb => simp [enter, h.running] at hret
      | submitBatch b' =>
        have hv : b'.validate = some b := hc
        simp [enter, h.running, hv] at hret
      | wakeUp r => cases hc
      | cancel r => cases hc
  have hend := exec_inv (I := fun u => Submitting s t b u ∧
    ∀ ret, u.threads t = .done ret → Submitted s.pool t b u.pool ret) hstep ⟨hsub, hstart⟩
    (Along.of_forall has) he
  rcases hquiet.calls t with hidle | ⟨ret, hret⟩
  · have := hend.1.phase
    rw [hidle] at this; exact this.elim
  · exact ⟨ret, hret, hend.2 ret hret⟩

omit [DecidableEq τ] in
theorem Attached.total {p₀ p : Pool τ α κ} {i : Fin 64} {nodes : List (ThreadPoolTask τ α κ)}
    (h : Attached p₀ p i nodes) (threads : τ → Pc τ α κ) (r : UInt32) : (p.view threads r).total =
      (p₀.view threads r).total + (nodes.filter fun task => task.requestId == r).length := by
  obtain ⟨size, hw⟩ := h
  have hq : (p.view threads r).queued = Function.update (p₀.view threads r).queued i
      (p₀.queued i r ++ nodes.filter fun task => task.requestId == r) := by
    rw [Pool.view_eq hw r]
    simp only [List.filter_append]
    rfl
  have := (p₀.view threads r).total_update i (p₀.queued i r ++ nodes.filter fun task => task.requestId == r)
  rw [← hq, List.length_append] at this
  change (p.view threads r).total + (p₀.queued i r).length = _ at this
  omega

/-- A submission counts the tasks it adds, wherever the others are queued. -/
theorem Submitted.balanced {s s' : PoolSys τ α κ} {t : τ} {b : Submit α κ} {ret : Ret} (hb : Balanced s)
    (h : Submitted s.pool t b s'.pool ret) : Balanced s' := by
  have hcount : b.count = UInt32.ofNat b.args.length := rfl
  have hpos := List.length_pos_iff.2 b.args_ne
  have htotal : ∀ {i nodes}, Attached s.pool s'.pool i nodes → Made t b nodes → ∀ r,
      (s'.view r).total = (s.view r).total + if b.requestId = r then nodes.length else 0 := by
    intro i nodes hatt hmade r
    refine (hatt.total s'.threads r).trans ?_
    rw [hmade.filter_eq r]
    split <;> rfl
  intro r
  have hr₀ := hb r
  cases h with
  | refused hsel hw hr =>
    have : (s'.view r).total = (s.view r).total := by
      simp only [View.total, view, Pool.view, Pool.queued, hw]
    rw [Pool.ctxs_congr hr, this]
    exact hr₀
  | bumped i nodes c hsel hmade hlen hatt hf hr =>
    rw [Pool.ctxs_congr hr, Pool.addPending_ctxs, htotal hatt hmade r]
    by_cases hbr : r = b.requestId
    · subst hbr
      rw [Pool.findReqContext_eq] at hf
      obtain ⟨c', hc', -, hn⟩ := hr₀.resolve_left fun hz => by rw [hz.1] at hf; cases hf
      obtain rfl : c' = c := by simpa [hc'] using hf
      rw [if_pos rfl, if_pos rfl, hc', List.map_singleton]
      refine .inr ⟨_, rfl, by omega, ?_⟩
      simp only [Pool.bumped, if_true, hn, hcount, Int32.count_add, hlen]
    · rw [if_neg hbr, if_neg (Ne.symm hbr), Nat.add_zero]
      exact hr₀
  | inserted i nodes hsel hmade hlen hatt hf hr =>
    rw [Pool.ctxs_congr hr, Pool.insertReqContext_ctxs, htotal hatt hmade r]
    change Balance (if b.requestId = r then _ else _) _
    by_cases hbr : b.requestId = r
    · subst hbr
      rw [Pool.findReqContext_eq, List.head?_eq_none_iff] at hf
      obtain ⟨-, hz⟩ := hr₀.resolve_right fun hctx => by
          obtain ⟨c, hc, -⟩ := hctx
          rw [hc] at hf
          cases hf
      rw [if_pos rfl, if_pos rfl, hf, hz]
      refine .inr ⟨_, rfl, by omega, ?_⟩
      simp only [Pool.newContext, hcount, UInt32.toInt32_ofNat', hlen, Nat.zero_add]
    · rw [if_neg hbr, if_neg hbr, Nat.add_zero]
      exact hr₀

/-! ### Runs of operations -/

theorem Ready.complete {s s' : PoolSys τ α κ} {t : τ} {c : Call α κ} (h : Ready s) (hb : Balanced s)
    (hlt : ∀ r, (s.view r).total < 2 ^ 32) (hrun : Complete s t c s') : Ready s' ∧ Balanced s' := by
  obtain ⟨⟨as, has, he⟩, hquiet⟩ := id hrun
  obtain ⟨hrunning, halive⟩ := exec_flags he
  obtain ⟨s₁, hcall, he⟩ := exec_cons.1 he
  suffices hfin : (∀ u, Tracked s' u) ∧ s'.pool.Sized ∧ Balanced s' from
    ⟨⟨hquiet, hrunning.trans h.running, halive.trans h.alive, hfin.1, hfin.2.1⟩, hfin.2.2⟩
  cases hc : c.submit? with
  | some b =>
    have hend := exec_inv (I := Submitting s t b)
      (fun u a u' hi ha (hs : PoolSys.step u a = some u') => hi.step h.quiet.workers ha hs)
      (h.submitting hc hcall) (Along.of_forall has) he
    obtain ⟨ret, -, hsub⟩ := h.submitted hrun hc
    exact ⟨hend.tracked, hend.sized, hsub.balanced hb⟩
  | none =>
    have hend := exec_inv (I := Handling s t)
      (fun u a u' hi ha (hs : PoolSys.step u a = some u') => hi.step h.quiet hlt ha hs)
      (h.handling hb hc hcall) (Along.of_forall has) he
    exact ⟨hend.tracked, hend.sized, hend.balanced hquiet⟩

end PoolSys

/-- The number of tasks queued on all workers. -/
def Pool.outstanding {τ α κ : Type} (p : Pool τ α κ) : Nat := ∑ i, (p.workers i).queue.length

/-- A request has at most one context, it has one exactly while some queue holds a task of it, and then
`pending_count` is the number of its tasks in all queues. -/
def Pool.Exact {τ α κ : Type} (p : Pool τ α κ) : Prop :=
  ∀ r, (p.ctxs r ≠ [] ↔ ∃ i, p.queued i r ≠ []) ∧ (p.ctxs r).length ≤ 1 ∧
    ∀ c ∈ p.ctxs r, c.pendingCount.toInt = (∑ i, (p.queued i r).length : Nat)

namespace PoolSys
variable {τ α κ : Type} [DecidableEq τ]

omit [DecidableEq τ] in
theorem total_le_outstanding (s : PoolSys τ α κ) (r : UInt32) : (s.view r).total ≤ s.pool.outstanding :=
  Finset.sum_le_sum fun _ _ => List.length_filter_le ..

omit [DecidableEq τ] in
theorem total_lt {s : PoolSys τ α κ} (hlt : s.pool.outstanding < 2 ^ 31) (r : UInt32) : (s.view r).total < 2 ^ 32 :=
  calc (s.view r).total ≤ s.pool.outstanding := total_le_outstanding s r
    _ < 2 ^ 31 := hlt
    _ < 2 ^ 32 := by decide

omit [DecidableEq τ] in
theorem Balanced.exact {s : PoolSys τ α κ} (h : Balanced s) (hlt : s.pool.outstanding < 2 ^ 31) : s.pool.Exact := by
  intro r
  have htotal : (s.view r).total < 2 ^ 31 := Nat.lt_of_le_of_lt (total_le_outstanding s r) hlt
  have hsome : (∃ i, s.pool.queued i r ≠ []) ↔ (s.view r).total ≠ 0 := by
    rw [Ne, View.total_eq_zero, not_forall]
    rfl
  show (s.pool.ctxs r ≠ [] ↔ _) ∧ _ ∧ ∀ c ∈ s.pool.ctxs r, c.pendingCount.toInt = ((s.view r).total : Int)
  rw [hsome]
  have hr := h r
  generalize (s.view r).total = n at hr htotal ⊢
  rcases hr with ⟨hc, hz⟩ | ⟨c, hc, hpos, hn⟩
  · simp [hc, hz]
  · refine ⟨by simp [hc, hpos.ne'], by simp [hc], fun c' hc' => ?_⟩
    obtain rfl : c' = c := by simpa [hc] using hc'
    rw [hn, Int32.toInt_ofNat_of_lt htotal]

end PoolSys

namespace Pool
variable {τ α κ : Type}

/-- Every context is in the chain of its id. -/
def Hashed (p : Pool τ α κ) : Prop := ∀ k, ∀ c ∈ p.reqHash k, hashReqId c.requestId = k

theorem Hashed.congr {p p' : Pool τ α κ} (h : p.Hashed) (hr : p'.reqHash = p.reqHash) : p'.Hashed := by
  intro k c hc
  rw [hr] at hc
  exact h k c hc

theorem Hashed.setChain {p : Pool τ α κ} (h : p.Hashed) {k : Fin reqHashSize} {l : List (RequestContext τ κ)}
    (hl : ∀ c ∈ l, hashReqId c.requestId = k) : (p.setChain k l).Hashed := by
  intro j c hc
  change c ∈ Function.update p.reqHash k l j at hc
  rcases eq_or_ne j k with rfl | hj
  · rw [Function.update_self] at hc
    exact hl c hc
  · rw [Function.update_of_ne hj] at hc
    exact h j c hc

theorem Hashed.remove {p : Pool τ α κ} (h : p.Hashed) (r : UInt32) : (p.removeReqContext r).Hashed :=
  h.setChain fun c hc => h _ c (List.mem_of_mem_eraseP hc)

variable [DecidableEq τ]

theorem Hashed.addPending {p : Pool τ α κ} (h : p.Hashed) (r : UInt32) (t : τ) (d : Int32) :
    (p.addPending r t d).Hashed := by
  refine h.setChain fun c hc => ?_
  obtain ⟨c', hc', rfl⟩ := List.mem_map.1 hc
  have := h _ c' hc'
  split <;> exact this

theorem Hashed.workerStep {p p' : Pool τ α κ} {i : Fin 64} {o : Oracle} (h : p.Hashed)
    (hs : WorkerStep p i o p') : p'.Hashed := by
  cases hs with
  | dec task ctx c hpc hd => exact Hashed.congr (Hashed.addPending h _ _ _) rfl
  | decDangling task ctx hpc hd => exact Hashed.congr (Hashed.addPending h _ _ _) rfl
  | remove task hpc => exact Hashed.congr (Hashed.remove h _) rfl
  | _ => exact h.congr rfl

theorem Hashed.threadStep {p p' : Pool τ α κ} {t : τ} {o : Oracle} {pc pc' : Pc τ α κ} (h : p.Hashed)
    (hs : ThreadStep p t o pc p' pc') : p'.Hashed := by
  cases hs with
  | bump b nodes ctx => exact Hashed.addPending h _ _ _
  | insert b i nodes ho =>
    refine h.setChain fun c hc => ?_
    rcases List.mem_cons.1 hc with rfl | hc
    · rfl
    · exact h _ c hc
  | cancelUpdate r ctx n c hd =>
    split
    · exact Hashed.remove (Hashed.addPending h _ _ _) r
    · exact Hashed.addPending h _ _ _
  | cancelUpdateDangling r ctx n hd =>
    split
    · exact Hashed.remove (Hashed.addPending h _ _ _) r
    · exact Hashed.addPending h _ _ _
  | _ => exact h.congr rfl

end Pool

namespace PoolSys
variable {τ α κ : Type} [DecidableEq τ]

theorem hashed_step {s s' : PoolSys τ α κ} {a : Act τ α κ} (h : s.pool.Hashed) (hs : s.step a = some s') :
    s'.pool.Hashed := by
  cases step_cases hs with
  | call t c o ht => exact h
  | thread t o p pc hp => exact h.threadStep hp
  | worker i o p hp => exact h.workerStep hp

theorem seqRun_exact_from {s : PoolSys τ α κ} {ops : List (τ × Call α κ × PoolSys τ α κ)} (h : Ready s)
    (hb : Balanced s) (hh : s.pool.Hashed) (hlt : s.pool.outstanding < 2 ^ 31) (hrun : SeqRun s ops)
    (hops : ∀ op ∈ ops, op.2.2.pool.outstanding < 2 ^ 31) :
    ∀ op ∈ ops, Ready op.2.2 ∧ Balanced op.2.2 ∧ op.2.2.pool.Exact ∧ op.2.2.pool.Hashed := by
  induction ops generalizing s with
  | nil => exact fun op hop => by cases hop
  | cons op ops ih =>
    obtain ⟨t, c, s'⟩ := op
    obtain ⟨hop, hrun⟩ := hrun
    have hlt' : s'.pool.outstanding < 2 ^ 31 := hops (t, c, s') List.mem_cons_self
    obtain ⟨hr', hb'⟩ := h.complete hb (total_lt hlt) hop
    have hh' : s'.pool.Hashed := by
      obtain ⟨⟨as, -, he⟩, -⟩ := hop
      exact exec_inv' (I := fun u => u.pool.Hashed) (fun _ _ _ hi hs => hashed_step hi hs) hh he
    intro op hmem
    rcases List.mem_cons.1 hmem with rfl | hmem
    · exact ⟨hr', hb', hb'.exact hlt', hh'⟩
    · exact ih hr' hb' hh' hlt' hrun (fun op hop => hops op (List.mem_cons_of_mem _ hop)) op hmem

omit [DecidableEq τ] in
theorem balanced_start : Balanced (start : PoolSys τ α κ) := fun _ =>
  .inl ⟨rfl, View.total_eq_zero.2 fun _ => rfl⟩

/-- After every operation of a run of complete operations the accounts of all requests are exact, as long as
fewer than 2^31 tasks are outstanding, and no context is in a chain of another id. -/
theorem seqRun_exact {ops : List (τ × Call α κ × PoolSys τ α κ)} (hrun : SeqRun start ops)
    (hops : ∀ op ∈ ops, op.2.2.pool.outstanding < 2 ^ 31) :
    ∀ op ∈ ops, op.2.2.pool.Exact ∧ op.2.2.pool.Hashed := by
  have hz : (start : PoolSys τ α κ).pool.outstanding = 0 := Finset.sum_eq_zero fun _ _ => rfl
  exact fun op hop => (seqRun_exact_from Tidy.start.ready balanced_start (fun _ _ hc => by cases hc)
    (by rw [hz]; decide) hrun hops op hop).2.2

/-- Request 7 is submitted twice, and its tasks are on two workers. -/
theorem afterSecond_exact : afterSecond.pool.Exact := by
  have hrun : SeqRun start [((0 : Fin 2), submitSeven, afterFirst), (1, submitSeven, afterSecond)] :=
    ⟨afterFirst_complete, afterSecond_complete, trivial⟩
  have hlt : ∀ op ∈ [((0 : Fin 2), submitSeven, afterFirst), (1, submitSeven, afterSecond)],
      op.2.2.pool.outstanding < 2 ^ 31 := by
    unfold Pool.outstanding
    decide +kernel
  exact (seqRun_exact hrun hlt _ (List.mem_cons_of_mem _ (List.mem_cons_self ..))).1

end PoolSys
end OsTransport
