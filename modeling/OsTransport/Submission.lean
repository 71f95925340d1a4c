import OsTransport.Awaited
import OsTransport.Lib.Counter
import OsTransport.Reuse

/-!
# A submission and a cancel on a busy pool

What a batch submission makes of the pool when no other thread moves but the workers it waits for, whatever the
others are in the middle of: the first worker that has nothing queued gets all tasks, and the context of the request
is made or raised. And what a cancel of the request makes of that.
-/

namespace OsTransport

/-- A bound on the sections that a cancel, or a submission of `n` tasks, still has to run. -/
def Pc.toGo {τ α κ : Type} (n : Nat) : Pc τ α κ → Nat
  | .select _ _ i _ _ => 64 - i.val + n + 4
  | .create _ _ nodes => n - nodes.length + 4
  | .attach .. => 4
  | .findCtx .. => 3
  | .bump .. | .insert .. => 2
  | .cancelFind .. => 4
  | .cancelRead .. => 3
  | .cancelQueue .. => 2
  | .cancelUpdate .. => 1
  | _ => 0

namespace Pool
variable {τ α κ : Type}

/-- `select_best_worker` takes the worker as soon as it comes to it. -/
def Vacant (p : Pool τ α κ) (i : Fin 64) : Prop := (p.workers i).state = .idle ∧ (p.workers i).queueSize = 0

instance (p : Pool τ α κ) (i : Fin 64) : Decidable (p.Vacant i) := inferInstanceAs (Decidable (_ ∧ _))

/-- `select_best_worker` passes over the workers before worker `i`. -/
def ComesTo (p : Pool τ α κ) (i : Fin 64) : Prop := ∀ j < i, (p.workers j).queueSize ≠ 0

instance (p : Pool τ α κ) (i : Fin 64) : Decidable (p.ComesTo i) := inferInstanceAs (Decidable (∀ j < i, _))

/-- Worker `i` is the one that `select_best_worker` takes. -/
structure Chooses (p : Pool τ α κ) (i : Fin 64) : Prop where
  empty : (p.workers i).queueSize = 0
  comesTo : p.ComesTo i

theorem Chooses.unique {p : Pool τ α κ} {i j : Fin 64} (hi : p.Chooses i) (hj : p.Chooses j) : i = j := by
  rcases lt_trichotomy i j with h | h | h
  · exact absurd hi.empty (hj.comesTo i h)
  · exact h
  · exact absurd hj.empty (hi.comesTo j h)

/-- On a rested pool `select_best_worker` never remembers a busy worker. -/
theorem selectStep_rested {p : Pool τ α κ} (b : Submit α κ) (nodes : List (ThreadPoolTask τ α κ)) {i : Fin 64}
    (minLoad : UInt32) (h : (p.workers i).state = .idle) :
    p.Vacant i ∧ p.selectStep b nodes i none minLoad = afterSelect b nodes i ∨
    ¬p.Vacant i ∧ ((∃ h : i.val + 1 < 64, p.selectStep b nodes i none minLoad =
        .select b nodes ⟨i.val + 1, h⟩ none minLoad) ∨
      i.val = 63 ∧ p.selectStep b nodes i none minLoad = .done .null) := by
  unfold selectStep
  by_cases hq : (p.workers i).queueSize = 0
  · exact .inl ⟨⟨h, hq⟩, by simp [h, hq]⟩
  · refine .inr ⟨fun hv => hq hv.2, ?_⟩
    by_cases hi : i.val + 1 < 64
    · exact .inl ⟨hi, by simp [h, hq, hi]⟩
    · exact .inr ⟨by omega, by simp [h, hq, hi]⟩

variable [DecidableEq τ]

/-- Of the workers that `select_best_worker` comes to, none counts down a context that was freed. -/
def HoldsLive (p : Pool τ α κ) : Prop := ∀ i, p.ComesTo i → (p.awaited i).Live i

theorem HoldsLive.of_held {p : Pool τ α κ} (hd : p.isDestroying = false)
    (h : ∀ i, p.ComesTo i → (p.workers i).pc.held ≠ 4) : p.HoldsLive := by
  intro i hi task ctx he
  rw [awaited_later hd le_rfl] at he
  exact absurd (congrArg WorkerPc.held he) (h i hi)

/-- A submission that was made on the pool `p₀` has come to worker `i`, and waits for it if need be. -/
structure Coming (p₀ : Pool τ α κ) (i : Fin 64) (p : Pool τ α κ) : Prop where
  comesTo : p₀.ComesTo i
  agree : Agree (p.finish i) (p₀.awaited (i + 1))
  live : p.Live i
  alive : p.isDestroying = false

namespace Coming
variable {p₀ p p' : Pool τ α κ} {i : Fin 64}

theorem of_agree (hl : p₀.HoldsLive) (hd : p₀.isDestroying = false) (hi : p₀.ComesTo i) (h : Agree p (p₀.awaited i)) :
    Coming p₀ i p := by
  refine ⟨hi, ?_, h.symm.live (hl i hi), h.alive.trans (awaited_alive hd i)⟩
  rw [awaited_succ]
  exact h.finish

theorem start (hl : p₀.HoldsLive) (hd : p₀.isDestroying = false) (h : Agree p p₀) : Coming p₀ 0 p :=
  of_agree hl hd (fun j hj => absurd hj (Fin.not_lt_zero j)) h

theorem worker {o : Oracle} (h : Coming p₀ i p) (hm : (p.workers i).mutexFree = false)
    (hs : p.workerStep i o = some p') : Coming p₀ i p' := by
  have hw := works h.alive hm hs
  refine ⟨h.comesTo, ?_, hw.live, hw.alive.trans h.alive⟩
  rw [finish_step h.alive hm h.live hs]
  exact h.agree

theorem free (h : Coming p₀ i p) (hm : (p.workers i).mutexFree = true) : Agree p (p₀.awaited (i + 1)) := by
  have hagree := h.agree
  rwa [finish_free hm] at hagree

/-- The loop takes the worker, goes on to the next one, or ends without one. -/
theorem select (h : Coming p₀ i p) (hl : p₀.HoldsLive) (hd : p₀.isDestroying = false) (h₀ : p₀.Rested)
    (hm : (p.workers i).mutexFree = true) (b : Submit α κ) (nodes : List (ThreadPoolTask τ α κ)) (minLoad : UInt32) :
    p₀.Chooses i ∧ Agree p (p₀.awaited (i + 1)) ∧ p.selectStep b nodes i none minLoad = afterSelect b nodes i ∨
    (∃ hi : i.val + 1 < 64, Coming p₀ ⟨i.val + 1, hi⟩ p ∧
      p.selectStep b nodes i none minLoad = .select b nodes ⟨i.val + 1, hi⟩ none minLoad) ∨
    (∀ j, ¬p₀.Chooses j) ∧ Agree p (p₀.awaited 64) ∧ p.selectStep b nodes i none minLoad = .done .null := by
  have hagree := h.free hm
  have hsize : (p.workers i).queueSize = (p₀.workers i).queueSize := by
    rw [hagree.workers]
    exact (awaited_queue hd _ i).2
  have hidle : (p.workers i).state = .idle := by
    rw [hagree.workers] at hm ⊢
    exact h₀.awaited hd _ i hm
  have hpass : ¬p.Vacant i → ∀ j, j.val ≤ i.val → (p₀.workers j).queueSize ≠ 0 := by
    intro hv j hj
    rcases lt_or_eq_of_le hj with hj | hj
    · exact h.comesTo j hj
    · obtain rfl := Fin.ext hj
      exact fun hz => hv ⟨hidle, hsize.trans hz⟩
  rcases selectStep_rested b nodes minLoad hidle with ⟨hv, hs⟩ | ⟨hv, ⟨hi, hs⟩ | ⟨hi, hs⟩⟩
  · exact .inl ⟨⟨hsize.symm.trans hv.2, h.comesTo⟩, hagree, hs⟩
  · refine .inr (.inl ⟨hi, of_agree hl hd (fun j hj => hpass hv j ?_) hagree, hs⟩)
    exact Nat.lt_succ_iff.1 (Fin.lt_def.1 hj)
  · rw [hi] at hagree
    exact .inr (.inr ⟨fun j hj => hpass hv j (by omega) hj.empty, hagree, hs⟩)

end Coming

/-- The pool with `nodes` appended to the queue of worker `i`. -/
def putOn (p : Pool τ α κ) (i : Fin 64) (nodes : List (ThreadPoolTask τ α κ)) (count : UInt32) : Pool τ α κ :=
  p.setWorker i ((p.workers i).attachNodesToWorker nodes count)

/-- `update_batch_context`. -/
def updateContext (p : Pool τ α κ) (t : τ) (b : Submit α κ) (i : Fin 64) : Pool τ α κ :=
  match p.findReqContext b.requestId with
  | some ctx => p.addPending b.requestId ctx.owner b.count.toInt32
  | none => p.insertReqContext (newContext t b i)

/-- The tasks of the submission `b`. -/
def NodesOf (b : Submit α κ) (nodes : List (ThreadPoolTask τ α κ)) : Prop :=
  (∀ task ∈ nodes, task.requestId = b.requestId) ∧ nodes.length = b.args.length

/-- What a submission has come to that was made on the pool `p₀`. -/
inductive Put (p₀ : Pool τ α κ) (t : τ) (b : Submit α κ) (p : Pool τ α κ) : Ret → Prop
  | refused (hsel : ∀ i, ¬p₀.Chooses i) (h : Agree p (p₀.awaited 64)) : Put p₀ t b p .null
  | placed (i : Fin 64) (nodes : List (ThreadPoolTask τ α κ)) (hsel : p₀.Chooses i) (hn : NodesOf b nodes)
      (hw : p.workers = ((p₀.awaited (i + 1)).putOn i nodes b.count).workers)
      (hr : p.reqHash = ((p₀.awaited (i + 1)).updateContext t b i).reqHash) : Put p₀ t b p (taskIds nodes)

/-- Where the submission of `b` stands that was made on the pool `p₀` as call `t`. -/
def Putting (p₀ : Pool τ α κ) (t : τ) (b : Submit α κ) (p : Pool τ α κ) : Pc τ α κ → Prop
  | .select b' _ i best _ => b' = b ∧ best = none ∧ Coming p₀ i p
  | .create b' w nodes => b' = b ∧ (∃ i, w = some i ∧ p₀.Chooses i ∧ Agree p (p₀.awaited (i + 1))) ∧
      (∀ task ∈ nodes, task.requestId = b.requestId) ∧ nodes.length < b.args.length
  | .attach b' i nodes => b' = b ∧ p₀.Chooses i ∧ NodesOf b nodes ∧ Agree p (p₀.awaited (i + 1))
  | .findCtx b' i nodes => b' = b ∧ p₀.Chooses i ∧ NodesOf b nodes ∧
      p.workers = ((p₀.awaited (i + 1)).putOn i nodes b.count).workers ∧ p.reqHash = (p₀.awaited (i + 1)).reqHash
  | .bump b' nodes ctx => b' = b ∧ ∃ i c, p₀.Chooses i ∧ NodesOf b nodes ∧
      p.workers = ((p₀.awaited (i + 1)).putOn i nodes b.count).workers ∧ p.reqHash = (p₀.awaited (i + 1)).reqHash ∧
      (p₀.awaited (i + 1)).findReqContext b.requestId = some c ∧ ctx = c.owner
  | .insert b' i nodes => b' = b ∧ p₀.Chooses i ∧ NodesOf b nodes ∧
      p.workers = ((p₀.awaited (i + 1)).putOn i nodes b.count).workers ∧ p.reqHash = (p₀.awaited (i + 1)).reqHash ∧
      (p₀.awaited (i + 1)).findReqContext b.requestId = none
  | .done ret => Put p₀ t b p ret
  | _ => False

theorem Put.placed_of_ids {p₀ p : Pool τ α κ} {t : τ} {b : Submit α κ} {ids : List UInt64}
    (h : Put p₀ t b p (.ids ids)) : ∃ i nodes, p₀.Chooses i ∧ NodesOf b nodes ∧
      p.workers = ((p₀.awaited (i + 1)).putOn i nodes b.count).workers ∧
      p.reqHash = ((p₀.awaited (i + 1)).updateContext t b i).reqHash := by
  generalize hret : Ret.ids ids = ret at h
  cases h with
  | refused => cases hret
  | placed i nodes hsel hn hw hr => exact ⟨i, nodes, hsel, hn, hw, hr⟩

theorem Putting.step {p₀ p p' : Pool τ α κ} {t : τ} {b : Submit α κ} {o : Oracle} {pc pc' : Pc τ α κ}
    (h₀ : p₀.Rested) (hd : p₀.isDestroying = false) (hl : p₀.HoldsLive) (hb : b.batch = true)
    (h : Putting p₀ t b p pc) (ho : o.ok = true ∧ o.okNode = true) (hs : ThreadStep p t o pc p' pc') :
    Putting p₀ t b p' pc' := by
  cases hs with
  | select b' nodes i best minLoad hm =>
    obtain ⟨rfl, rfl, hcoming⟩ := h
    rcases hcoming.select hl hd h₀ hm b' nodes minLoad with ⟨hsel, hagree, hs⟩ | ⟨hi, hnext, hs⟩ | ⟨hno, hagree, hs⟩ <;>
      rw [hs]
    · unfold afterSelect
      rw [if_pos hb]
      exact ⟨rfl, ⟨i, rfl, hsel, hagree⟩, by simp, by simpa [List.length_pos_iff] using b'.args_ne⟩
    · exact ⟨rfl, rfl, hnext⟩
    · exact .refused hno hagree
  | create b' w nodes arg ha =>
    obtain ⟨rfl, ⟨i, rfl, hsel, hagree⟩, hn, hlt⟩ := h
    have hn' : ∀ task ∈ nodes ++ [p.createNode t b' nodes.length arg], task.requestId = b'.requestId := by
      intro task htask
      rcases List.mem_append.1 htask with htask | htask
      · exact hn task htask
      · obtain rfl := List.mem_singleton.1 htask
        rfl
    have hagree' : Agree { p with nextTaskId := p.nextTaskId + 1 } (p₀.awaited (i + 1)) :=
      ⟨hagree.workers, hagree.reqHash, hagree.alive⟩
    unfold afterCreate
    split
    · rename_i hlt'
      exact ⟨rfl, ⟨i, rfl, hsel, hagree'⟩, hn', hlt'⟩
    · rename_i hge
      exact ⟨rfl, hsel, ⟨hn', by simp at hge ⊢; omega⟩, hagree'⟩
  | createFail b' w nodes id ho' => simp [ho] at ho'
  | attach b' i nodes size hm hsize =>
    obtain ⟨rfl, hsel, hn, hagree⟩ := h
    obtain rfl : size = b'.count := hsize.elim id fun e => by rw [e, hn.2]; rfl
    refine ⟨rfl, hsel, hn, ?_, hagree.reqHash⟩
    simp [putOn, setWorker, hagree.workers, WorkerThread.attachNodesToWorker]
  | attachFail b' i nodes ho' => simp [ho] at ho'
  | findSome b' i nodes ctx hf =>
    obtain ⟨rfl, hsel, hn, hw, hr⟩ := h
    refine ⟨rfl, i, ctx, hsel, hn, hw, hr, ?_, rfl⟩
    rw [← hf, findReqContext, findReqContext, hr]
  | findNone b' i nodes hf =>
    obtain ⟨rfl, hsel, hn, hw, hr⟩ := h
    refine ⟨rfl, hsel, hn, hw, hr, ?_⟩
    rw [← hf, findReqContext, findReqContext, hr]
  | bump b' nodes ctx =>
    obtain ⟨rfl, i, c, hsel, hn, hw, hr, hf, rfl⟩ := h
    refine .placed i nodes hsel hn hw ?_
    simp only [updateContext, hf, addPending, setChain, hr]
  | insert b' i nodes ho' =>
    obtain ⟨rfl, hsel, hn, hw, hr, hf⟩ := h
    refine .placed i nodes hsel hn hw ?_
    simp only [updateContext, hf, insertReqContext, setChain, hr]
  | insertFail b' i nodes ho' => rw [ho.1] at ho'; cases ho'
  | _ => exact h.elim

theorem Putting.deref_ne {p₀ p : Pool τ α κ} {t : τ} {b b' : Submit α κ} {nodes : List (ThreadPoolTask τ α κ)} {x : τ}
    (h : Putting p₀ t b p (.bump b' nodes x)) : p.deref b'.requestId x ≠ none := by
  obtain ⟨rfl, i, c, -, -, -, hr, hf, rfl⟩ := h
  have hc : p.findReqContext b'.requestId = some c := by rw [← hf, findReqContext, findReqContext, hr]
  exact Option.isSome_iff_ne_none.1 (Option.isSome_iff_exists.2 ⟨c, deref_of_find hc⟩)

theorem Putting.coming {p₀ p : Pool τ α κ} {t : τ} {b : Submit α κ} {pc : Pc τ α κ} {i : Fin 64}
    (hd : p₀.isDestroying = false) (h : Putting p₀ t b p pc) (hi : p.waitsFor pc = some i) : Coming p₀ i p := by
  obtain ⟨hlocks, hm⟩ := waitsFor_eq_some.1 hi
  cases pc with
  | select b' nodes j best minLoad =>
    cases hlocks
    exact h.2.2
  | attach b' j nodes =>
    cases hlocks
    obtain ⟨-, -, -, hagree⟩ := h
    rw [hagree.workers, awaited_mutexFree hd] at hm
    cases hm
  | wakeSet | cancelQueue => exact h.elim
  | _ => cases hlocks

theorem Putting.worker {p₀ p p' : Pool τ α κ} {t : τ} {b : Submit α κ} {o : Oracle} {pc : Pc τ α κ} {i : Fin 64}
    (hd : p₀.isDestroying = false) (h : Putting p₀ t b p pc) (hi : p.waitsFor pc = some i)
    (hs : p.workerStep i o = some p') : Putting p₀ t b p' pc := by
  have hcoming := (h.coming hd hi).worker (waitsFor_eq_some.1 hi).2 hs
  have hlocks := (waitsFor_eq_some.1 hi).1
  cases pc with
  | select b' nodes j best minLoad =>
    cases hlocks
    exact ⟨h.1, h.2.1, hcoming⟩
  | attach b' j nodes =>
    cases hlocks
    obtain ⟨-, -, -, hagree⟩ := h
    have hm := (waitsFor_eq_some.1 hi).2
    rw [hagree.workers, awaited_mutexFree hd] at hm
    cases hm
  | wakeSet | cancelQueue => exact h.elim
  | _ => cases hlocks

/-- A submission that has a worker to choose returns task ids, and until then it can go on or waits for a worker. -/
theorem Putting.progress {p₀ p : Pool τ α κ} {t : τ} {b : Submit α κ} {o : Oracle} {pc : Pc τ α κ} {k : Fin 64}
    (h₀ : p₀.Rested) (hd : p₀.isDestroying = false) (hl : p₀.HoldsLive) (hb : b.batch = true) (hk : p₀.Chooses k)
    (h : Putting p₀ t b p pc) (ho : o.ok = true ∧ o.okNode = true) :
    (∃ ret, pc = .done ret) ∨ (∃ i, p.waitsFor pc = some i) ∨
      ∃ p' pc', p.threadStep t o pc = some (p', pc') ∧ pc'.toGo b.args.length < pc.toGo b.args.length := by
  cases pc with
  | select b' nodes i best minLoad =>
    obtain ⟨rfl, rfl, hcoming⟩ := h
    refine .inr ?_
    cases hm : (p.workers i).mutexFree with
    | false => exact .inl ⟨i, waitsFor_eq_some.2 ⟨rfl, hm⟩⟩
    | true =>
    refine .inr ⟨p, p.selectStep b' nodes i none minLoad, by simp only [threadStep, hm, if_true], ?_⟩
    rcases hcoming.select hl hd h₀ hm b' nodes minLoad with ⟨-, -, hs⟩ | ⟨hi, -, hs⟩ | ⟨hno, -, -⟩
    · rw [hs]
      unfold afterSelect
      rw [if_pos hb]
      simp only [Pc.toGo, List.length_nil]
      omega
    · rw [hs]
      simp only [Pc.toGo]
      omega
    · exact absurd hk (hno k)
  | create b' w nodes =>
    obtain ⟨rfl, ⟨i, rfl, hsel, -⟩, hn, hlt⟩ := h
    have ha : b'.args[nodes.length]? = some b'.args[nodes.length] := List.getElem?_eq_getElem hlt
    refine .inr (.inr ⟨{ p with nextTaskId := p.nextTaskId + 1 },
      afterCreate b' (some i) (nodes ++ [p.createNode t b' nodes.length b'.args[nodes.length]]), ?_, ?_⟩)
    · simp [threadStep, ha, ho]
    · unfold afterCreate
      split
      · simp only [Pc.toGo, List.length_append, List.length_singleton]
        omega
      · simp only [Pc.toGo]
        omega
  | attach b' i nodes =>
    obtain ⟨rfl, hsel, hn, hagree⟩ := h
    have hm : (p.workers i).mutexFree = true := by rw [hagree.workers]; exact awaited_mutexFree hd i
    exact .inr (.inr ⟨_, .findCtx b' i nodes, by simp [threadStep, hm, hb]; rfl, by simp [Pc.toGo]⟩)
  | findCtx b' i nodes =>
    obtain ⟨rfl, -⟩ := h
    refine .inr (.inr ?_)
    cases hf : p.findReqContext b'.requestId with
    | some c => exact ⟨p, .bump b' nodes c.owner, by simp [threadStep, hf], by simp [Pc.toGo]⟩
    | none => exact ⟨p, .insert b' i nodes, by simp [threadStep, hf], by simp [Pc.toGo]⟩
  | bump b' nodes ctx => exact .inr (.inr ⟨_, _, rfl, by simp [Pc.toGo]⟩)
  | insert b' i nodes =>
    exact .inr (.inr ⟨p.insertReqContext (newContext t b' i), .done (taskIds nodes), by simp [threadStep, ho],
      by simp [Pc.toGo]⟩)
  | done ret => exact .inl ⟨ret, rfl⟩
  | _ => exact h.elim

/-! ### A cancel -/

/-- `cancel_in_worker_queue` on the worker that the context `c` of `r` is bound to, and
`update_context_after_cancel`. -/
def cut (p : Pool τ α κ) (r : UInt32) (c : RequestContext τ κ) : Pool τ α κ :=
  let n := UInt32.ofNat (p.queued c.workerIdx r).length
  let q := p.setWorker c.workerIdx ((p.workers c.workerIdx).cancelInWorkerQueue r).2
  if n = 0 then q
  else
    let q := q.addPending r c.owner (-n.toInt32)
    if c.pendingCount + -n.toInt32 = 0 then q.removeReqContext r else q

/-- Where the cancel of `r` stands that was made on the pool `p₀`, where `r` has the context `c`. -/
def Cutting (p₀ : Pool τ α κ) (r : UInt32) (c : RequestContext τ κ) (p : Pool τ α κ) : Pc τ α κ → Prop
  | .cancelFind r' => r' = r ∧ p.workers = p₀.workers ∧ p.reqHash = p₀.reqHash
  | .cancelRead r' x => r' = r ∧ x = c.owner ∧ p.workers = p₀.workers ∧ p.reqHash = p₀.reqHash
  | .cancelQueue r' x i => r' = r ∧ x = c.owner ∧ i = c.workerIdx ∧ p.workers = p₀.workers ∧ p.reqHash = p₀.reqHash
  | .cancelUpdate r' x n => r' = r ∧ x = c.owner ∧ n = UInt32.ofNat (p₀.queued c.workerIdx r).length ∧ n ≠ 0 ∧
      p.workers = (p₀.cut r c).workers ∧ p.reqHash = p₀.reqHash
  | .done ret => (∃ n, ret = .int n) ∧ p.workers = (p₀.cut r c).workers ∧ p.reqHash = (p₀.cut r c).reqHash
  | _ => False

theorem cut_workers (p : Pool τ α κ) (r : UInt32) (c : RequestContext τ κ) : (p.cut r c).workers =
    (p.setWorker c.workerIdx ((p.workers c.workerIdx).cancelInWorkerQueue r).2).workers := by
  unfold cut
  simp only
  split
  · rfl
  split <;> rfl

theorem Cutting.step {p₀ p p' : Pool τ α κ} {t : τ} {r : UInt32} {c : RequestContext τ κ} {o : Oracle}
    {pc pc' : Pc τ α κ} (hc : p₀.findReqContext r = some c) (h : Cutting p₀ r c p pc)
    (hs : ThreadStep p t o pc p' pc') : Cutting p₀ r c p' pc' := by
  cases hs with
  | cancelFindSome r' c' hf =>
    obtain ⟨rfl, hw, hr⟩ := h
    have hc' : p.findReqContext r' = some c := by rw [← hc, findReqContext, findReqContext, hr]
    obtain rfl : c = c' := Option.some.inj (hc'.symm.trans hf)
    exact ⟨rfl, rfl, hw, hr⟩
  | cancelFindNone r' hf =>
    obtain ⟨rfl, hw, hr⟩ := h
    have hc' : p.findReqContext r' = some c := by rw [← hc, findReqContext, findReqContext, hr]
    rw [hc'] at hf
    cases hf
  | cancelRead r' x =>
    obtain ⟨rfl, rfl, hw, hr⟩ := h
    have hd : p.deref r' c.owner = some c := by
      rw [← deref_of_find hc, deref, deref, hr]
    exact ⟨rfl, rfl, by simp [hd], hw, hr⟩
  | cancelQueue r' x i hm =>
    obtain ⟨rfl, rfl, rfl, hw, hr⟩ := h
    have hq : p.queued c.workerIdx r' = p₀.queued c.workerIdx r' := queued_congr (by rw [hw]) r'
    have hcut : (p.setWorker c.workerIdx { p.workers c.workerIdx with
        queue := (p.workers c.workerIdx).queue.filter fun task => !(task.requestId == r')
        queueSize := (p.workers c.workerIdx).queueSize - UInt32.ofNat (p.queued c.workerIdx r').length }).workers =
        (p₀.cut r' c).workers := by
      rw [cut_workers]
      simp only [setWorker, WorkerThread.cancelInWorkerQueue, hq, hw]
      rfl
    rw [hq] at hcut ⊢
    split
    · rename_i hn
      exact ⟨rfl, rfl, rfl, fun e => by rw [e] at hn; exact absurd hn (by decide), hcut, hr⟩
    · rename_i hn
      have hn : UInt32.ofNat (p₀.queued c.workerIdx r').length = 0 := by
        rw [UInt32.lt_iff_toNat_lt] at hn
        exact UInt32.toNat_inj.1 (Nat.eq_zero_of_not_pos hn)
      refine ⟨⟨0, rfl⟩, hcut, ?_⟩
      simp only [cut, hn]
      exact hr
  | cancelUpdate r' x n c' hd =>
    obtain ⟨rfl, rfl, rfl, hn, hw, hr⟩ := h
    have hd' := deref_addPending hc hr (-(UInt32.ofNat (p₀.queued c.workerIdx r').length).toInt32)
    obtain rfl := Option.some.inj (hd'.symm.trans hd)
    have hz : (bumped c.owner (-(UInt32.ofNat (p₀.queued c.workerIdx r').length).toInt32) c).pendingCount =
        c.pendingCount + -(UInt32.ofNat (p₀.queued c.workerIdx r').length).toInt32 := by
      simp [bumped]
    refine ⟨⟨_, rfl⟩, ?_, ?_⟩
    · rw [← hw]
      split <;> rfl
    · simp only [cut, hn, if_false, hz]
      split <;> simp only [removeReqContext, addPending, setChain, hr, setWorker_reqHash]
  | cancelUpdateDangling r' x n hd =>
    obtain ⟨rfl, rfl, rfl, hn, hw, hr⟩ := h
    rw [deref_addPending hc hr] at hd
    cases hd
  | _ => exact h.elim

theorem Cutting.deref_ne {p₀ p : Pool τ α κ} {r r' : UInt32} {c : RequestContext τ κ} {x : τ} {n : UInt32}
    (hc : p₀.findReqContext r = some c) (h : Cutting p₀ r c p (.cancelUpdate r' x n)) : p.deref r' x ≠ none := by
  obtain ⟨rfl, rfl, -, -, -, hr⟩ := h
  have hd : p.deref r' c.owner = some c := by rw [← deref_of_find hc, deref, deref, hr]
  exact Option.isSome_iff_ne_none.1 (Option.isSome_iff_exists.2 ⟨c, hd⟩)

theorem Cutting.progress {p₀ p : Pool τ α κ} {t : τ} {r : UInt32} {c : RequestContext τ κ} {o : Oracle} {pc : Pc τ α κ}
    {n : Nat} (hc : p₀.findReqContext r = some c) (hm : (p₀.workers c.workerIdx).mutexFree = true)
    (h : Cutting p₀ r c p pc) : (∃ ret, pc = .done ret) ∨
      ∃ p' pc', p.threadStep t o pc = some (p', pc') ∧ pc'.toGo n < pc.toGo n := by
  cases pc with
  | cancelFind r' =>
    obtain ⟨rfl, hw, hr⟩ := h
    have hc' : p.findReqContext r' = some c := by rw [← hc, findReqContext, findReqContext, hr]
    exact .inr ⟨p, .cancelRead r' c.owner, by simp [threadStep, hc'], by simp [Pc.toGo]⟩
  | cancelRead r' x =>
    obtain ⟨rfl, rfl, hw, hr⟩ := h
    have hd : p.deref r' c.owner = some c := by rw [← deref_of_find hc, deref, deref, hr]
    exact .inr ⟨p, .cancelQueue r' c.owner c.workerIdx, by simp [threadStep, hd], by simp [Pc.toGo]⟩
  | cancelQueue r' x i =>
    obtain ⟨rfl, rfl, rfl, hw, hr⟩ := h
    rw [← hw] at hm
    refine .inr ?_
    simp only [threadStep, hm, Bool.not_true, Bool.false_eq_true, if_false]
    split
    · exact ⟨_, _, rfl, by simp [Pc.toGo]⟩
    · exact ⟨_, _, rfl, by simp [Pc.toGo]⟩
  | cancelUpdate r' x n => exact .inr ⟨_, _, rfl, by simp [Pc.toGo]⟩
  | done ret => exact .inl ⟨ret, rfl⟩
  | _ => exact h.elim

/-! ### A cancel after a submission -/

/-- Every worker queue and the request table are the same, and the workers stand where they stood. -/
structure Restored (p₀ p : Pool τ α κ) : Prop where
  queue : ∀ i, (p.workers i).queue = (p₀.workers i).queue ∧ (p.workers i).queueSize = (p₀.workers i).queueSize
  pc : ∀ i, (p.workers i).pc = (p₀.workers i).pc
  reqHash : p.reqHash = p₀.reqHash

omit [DecidableEq τ] in
theorem setChain_setChain (p : Pool τ α κ) (k : Fin reqHashSize) (l l' : List (RequestContext τ κ)) :
    (p.setChain k l).setChain k l' = p.setChain k l' := by
  simp [setChain]

omit [DecidableEq τ] in
theorem setChain_self (p : Pool τ α κ) (k : Fin reqHashSize) : p.setChain k (p.reqHash k) = p := by
  simp [setChain]

omit [DecidableEq τ] in
theorem Restored.of_eq {p₀ p : Pool τ α κ} (hw : p.workers = p₀.workers) (hr : p.reqHash = p₀.reqHash) :
    Restored p₀ p :=
  ⟨fun i => by rw [hw]; exact ⟨rfl, rfl⟩, fun i => by rw [hw], hr⟩

omit [DecidableEq τ] in
theorem Restored.congr {p₀ p p' : Pool τ α κ} (hw : p'.workers = p.workers) (hr : p'.reqHash = p.reqHash)
    (h : Restored p₀ p) : Restored p₀ p' :=
  ⟨fun i => hw ▸ h.queue i, fun i => hw ▸ h.pc i, hr.trans h.reqHash⟩

/-- A context that was inserted for a request without one is the one that a cancel unlinks. -/
theorem insert_cancel (p : Pool τ α κ) {r : UInt32} {ctx : RequestContext τ κ} (hr : ctx.requestId = r)
    (hf : p.findReqContext r = none) (t : τ) (d : Int32) :
    ((p.insertReqContext ctx).addPending r t d).removeReqContext r = p := by
  subst hr
  have hold : ∀ c ∈ p.reqHash (hashReqId ctx.requestId), ¬c.requestId = ctx.requestId := by
    simpa [findReqContext, List.find?_eq_none] using hf
  have hmap : (p.reqHash (hashReqId ctx.requestId)).map (fun c => if pointsTo ctx.requestId t c then
      { c with pendingCount := c.pendingCount + d } else c) = p.reqHash (hashReqId ctx.requestId) := by
    refine (List.map_congr_left fun c hc => ?_).trans (List.map_id _)
    simp [pointsTo, hold c hc]
  simp only [insertReqContext, addPending, removeReqContext, setChain_setChain]
  have hchain : ∀ l, (p.setChain (hashReqId ctx.requestId) l).reqHash (hashReqId ctx.requestId) = l := fun l =>
    Function.update_self ..
  rw [hchain, hchain, List.map_cons, hmap, List.eraseP_cons_of_pos, setChain_self]
  split <;> simp

theorem add_cancel (p : Pool τ α κ) (r : UInt32) (t : τ) (d : Int32) :
    (p.addPending r t d).addPending r t (-d) = p := by
  have hchain : ∀ l, (p.setChain (hashReqId r) l).reqHash (hashReqId r) = l := fun l => Function.update_self ..
  simp only [addPending, setChain_setChain, hchain, List.map_map]
  have hmap : (p.reqHash (hashReqId r)).map ((fun c => if pointsTo r t c then
        { c with pendingCount := c.pendingCount + -d } else c) ∘ fun c => if pointsTo r t c then
        { c with pendingCount := c.pendingCount + d } else c) = p.reqHash (hashReqId r) := by
    refine (List.map_congr_left fun c _ => ?_).trans (List.map_id _)
    by_cases hc : pointsTo r t c = true
    · have hc' : pointsTo r t { c with pendingCount := c.pendingCount + d } = true := hc
      simp only [Function.comp_apply, hc, hc', if_true, Int32.add_add_neg, id]
    · simp only [Function.comp_apply, hc, if_false, id, Bool.false_eq_true]
  rw [hmap, setChain_self]

theorem updateContext_find (p : Pool τ α κ) (t : τ) (b : Submit α κ) (i : Fin 64) :
    p.findReqContext b.requestId = none ∧ p.updateContext t b i = p.insertReqContext (newContext t b i) ∧
      (p.updateContext t b i).findReqContext b.requestId = some (newContext t b i) ∨
    ∃ c, p.findReqContext b.requestId = some c ∧
      p.updateContext t b i = p.addPending b.requestId c.owner b.count.toInt32 ∧
      (p.updateContext t b i).findReqContext b.requestId = some (bumped c.owner b.count.toInt32 c) := by
  unfold updateContext
  cases hf : p.findReqContext b.requestId with
  | none =>
    refine .inl ⟨rfl, rfl, ?_⟩
    rw [findReqContext_eq, insertReqContext_ctxs, if_pos (by rfl)]
    rfl
  | some c => exact .inr ⟨c, rfl, rfl, by rw [findReqContext_addPending, hf]; rfl⟩

theorem updateContext_workerIdx (p : Pool τ α κ) (t : τ) (b : Submit α κ) (i : Fin 64) :
    ∃ c, (p.updateContext t b i).findReqContext b.requestId = some c ∧
      ((∀ c₀, p.findReqContext b.requestId = some c₀ → c₀.workerIdx = i) → c.workerIdx = i) := by
  rcases updateContext_find p t b i with ⟨-, -, hf⟩ | ⟨c₀, hc₀, -, hf⟩
  · exact ⟨_, hf, fun _ => rfl⟩
  · refine ⟨_, hf, fun h => Eq.trans ?_ (h c₀ hc₀)⟩
    unfold bumped
    split <;> rfl

omit [DecidableEq τ] in
theorem count_ne_zero (b : Submit α κ) : b.count ≠ 0 := by
  intro h
  have hn := congrArg UInt32.toNat h
  rw [Submit.count, UInt32.toNat_ofNat_of_lt' b.count_lt] at hn
  exact b.args_ne (List.length_eq_zero_iff.1 hn)

section
variable {p₀ p : Pool τ α κ} {t : τ} {b : Submit α κ} {i : Fin 64} {nodes : List (ThreadPoolTask τ α κ)}

omit [DecidableEq τ] in
theorem queued_putOn (hq : ∀ j, p₀.queued j b.requestId = []) (hn : NodesOf b nodes)
    (hw : p.workers = (p₀.putOn i nodes b.count).workers) (j : Fin 64) :
    p.queued j b.requestId = if j = i then nodes else [] := by
  have hnodes : nodes.filter (fun task => task.requestId == b.requestId) = nodes :=
    List.filter_eq_self.2 fun task htask => by simpa using hn.1 task htask
  unfold queued
  rw [hw, putOn, setWorker_workers]
  split
  · rename_i hj
    subst hj
    simp only [WorkerThread.attachNodesToWorker, List.filter_append, hnodes]
    exact congrArg (· ++ nodes) (hq j)
  · exact hq j

/-- Cancelled from the worker they were put on, the tasks leave the queues as they were. -/
theorem cut_putOn (hq : ∀ j, p₀.queued j b.requestId = []) (hn : NodesOf b nodes)
    (hw : p.workers = (p₀.putOn i nodes b.count).workers) {c : RequestContext τ κ} (hc : c.workerIdx = i) :
    (p.cut b.requestId c).workers = p₀.workers := by
  have hold : (p₀.workers i).queue.filter (fun task => !(task.requestId == b.requestId)) = (p₀.workers i).queue := by
    refine List.filter_eq_self.2 fun task htask => ?_
    have := List.filter_eq_nil_iff.1 (hq i) task htask
    simpa using this
  have hnew : nodes.filter (fun task => !(task.requestId == b.requestId)) = [] :=
    List.filter_eq_nil_iff.2 fun task htask => by simp [hn.1 task htask]
  have hlen : ((p₀.workers i).queue ++ nodes).filter (fun task => task.requestId == b.requestId) = nodes := by
    have := queued_putOn hq hn hw i
    rw [if_pos rfl, queued, hw, putOn, setWorker_workers_self] at this
    exact this
  rw [cut_workers, hc]
  funext j
  rw [setWorker_workers, hw, putOn, setWorker_workers_self]
  split
  · rename_i hj
    subst hj
    simp only [WorkerThread.cancelInWorkerQueue, WorkerThread.attachNodesToWorker, hlen, List.filter_append, hold,
      hnew, List.append_nil, hn.2, Submit.count, UInt32.add_sub_cancel]
  · rename_i hj
    rw [setWorker_workers_ne _ hj]

theorem cut_reqHash (hw : p.workers = (p₀.putOn i nodes b.count).workers) (hr : p.reqHash = (p₀.updateContext t b i).reqHash)
    (hq : ∀ j, p₀.queued j b.requestId = []) (hn : NodesOf b nodes) {c : RequestContext τ κ} (hc : c.workerIdx = i) :
    (p.cut b.requestId c).reqHash = if c.pendingCount + -b.count.toInt32 = 0 then
      (((p₀.updateContext t b i).addPending b.requestId c.owner (-b.count.toInt32)).removeReqContext b.requestId).reqHash
      else ((p₀.updateContext t b i).addPending b.requestId c.owner (-b.count.toInt32)).reqHash := by
  have hlen : UInt32.ofNat (p.queued c.workerIdx b.requestId).length = b.count := by
    rw [queued_putOn hq hn hw, if_pos hc, hn.2]; rfl
  simp only [cut, hlen, if_neg (count_ne_zero b)]
  split <;> simp only [removeReqContext, addPending, setChain, hr, setWorker_reqHash]

/-- If the cancel gives back the queue of the worker that was chosen, and the contexts of the request, the request had
no context before, or one that is bound to this worker and counts other than 0. -/
theorem bound_of_cut (hq : ∀ j, p₀.queued j b.requestId = []) (hn : NodesOf b nodes)
    (hw : p.workers = (p₀.putOn i nodes b.count).workers) (hr : p.reqHash = (p₀.updateContext t b i).reqHash)
    {c : RequestContext τ κ} (hc : p.findReqContext b.requestId = some c)
    (hqueue : ((p.cut b.requestId c).workers i).queue = (p₀.workers i).queue)
    (hctx : (p.cut b.requestId c).ctxs b.requestId = p₀.ctxs b.requestId) {c₀ : RequestContext τ κ}
    (hf : p₀.findReqContext b.requestId = some c₀) : c₀.workerIdx = i ∧ c₀.pendingCount ≠ 0 := by
  have hc' : (p₀.updateContext t b i).findReqContext b.requestId = some c := by
    rw [← hc, findReqContext, findReqContext, hr]
  rcases updateContext_find p₀ t b i with ⟨hf', -, -⟩ | ⟨c₁, hf', hupd, hold⟩
  · rw [hf'] at hf
    cases hf
  obtain rfl := Option.some.inj (hf'.symm.trans hf)
  obtain rfl := Option.some.inj (hold.symm.trans hc')
  have hidx : (bumped c₁.owner b.count.toInt32 c₁).workerIdx = c₁.workerIdx := by unfold bumped; split <;> rfl
  have hcount : (bumped c₁.owner b.count.toInt32 c₁).pendingCount + -b.count.toInt32 = c₁.pendingCount := by
    simp [bumped, Int32.add_add_neg]
  have hi : c₁.workerIdx = i := by
    -- otherwise the tasks stay on the worker that was chosen
    by_contra hi
    rw [cut_workers, hidx, setWorker_workers_ne _ (Ne.symm hi), hw, putOn, setWorker_workers_self] at hqueue
    have hnil : nodes = [] := by simpa [WorkerThread.attachNodesToWorker] using hqueue
    have := hn.2
    rw [hnil] at this
    exact b.args_ne (List.length_eq_zero_iff.1 this.symm)
  refine ⟨hi, fun hz => ?_⟩
  have htable := cut_reqHash hw hr hq hn (hidx.trans hi)
  rw [hcount, if_pos hz, bumped_owner, hupd, add_cancel] at htable
  rw [ctxs_congr htable, removeReqContext_ctxs, if_pos rfl] at hctx
  rw [findReqContext_eq] at hf
  cases hl : p₀.ctxs b.requestId with
  | nil =>
    rw [hl] at hf
    cases hf
  | cons x l =>
    rw [hl, List.tail_cons] at hctx
    exact absurd hctx (List.cons_ne_self x l).symm

/-- Then the cancel gives back every queue and the table. -/
theorem cut_restored (hq : ∀ j, p₀.queued j b.requestId = []) (hn : NodesOf b nodes)
    (hw : p.workers = (p₀.putOn i nodes b.count).workers) (hr : p.reqHash = (p₀.updateContext t b i).reqHash)
    {c : RequestContext τ κ} (hc : p.findReqContext b.requestId = some c)
    (hbound : ∀ c₀, p₀.findReqContext b.requestId = some c₀ → c₀.workerIdx = i ∧ c₀.pendingCount ≠ 0) :
    Restored p₀ (p.cut b.requestId c) := by
  have hc' : (p₀.updateContext t b i).findReqContext b.requestId = some c := by
    rw [← hc, findReqContext, findReqContext, hr]
  have hrestored : c.workerIdx = i → (p.cut b.requestId c).reqHash = p₀.reqHash → Restored p₀ (p.cut b.requestId c) :=
    fun hi => .of_eq (cut_putOn hq hn hw hi)
  rcases updateContext_find p₀ t b i with ⟨hf, hupd, hnew⟩ | ⟨c₀, hf, hupd, hold⟩
  · obtain rfl := Option.some.inj (hnew.symm.trans hc')
    have hzero : (newContext t b i).pendingCount + -b.count.toInt32 = 0 := Int32.count_off.2 rfl
    refine hrestored rfl ?_
    rw [cut_reqHash hw hr hq hn rfl, if_pos hzero, hupd]
    exact congrArg Pool.reqHash (insert_cancel p₀ rfl hf ..)
  · obtain rfl := Option.some.inj (hold.symm.trans hc')
    obtain ⟨hi, hz⟩ := hbound c₀ hf
    have hidx : (bumped c₀.owner b.count.toInt32 c₀).workerIdx = i := by
      rw [← hi]
      unfold bumped
      split <;> rfl
    have hcount : (bumped c₀.owner b.count.toInt32 c₀).pendingCount + -b.count.toInt32 = c₀.pendingCount := by
      simp [bumped, Int32.add_add_neg]
    refine hrestored hidx ?_
    rw [cut_reqHash hw hr hq hn hidx, hcount, bumped_owner, hupd, add_cancel, if_neg hz]

end
end Pool

theorem PoolSys.rested_step {τ α κ : Type} [DecidableEq τ] {s s' : PoolSys τ α κ} {a : Act τ α κ}
    (h : s.pool.Rested) (ha : s.pool.isDestroying = false) (hs : s.step a = some s') : s'.pool.Rested := by
  cases step_cases hs with
  | call t c o ht => exact h
  | thread t o p pc hp => exact h.threadStep hp
  | worker i o p hp => exact h.workerStep ha hp

/-- The pool runs, and every worker that is not executing a task is idle. -/
structure PoolSys.Up {τ α κ : Type} (p : Pool τ α κ) : Prop where
  rested : p.Rested
  alive : p.isDestroying = false
  running : p.isRunning = true

theorem PoolSys.Up.step {τ α κ : Type} [DecidableEq τ] {s s' : PoolSys τ α κ} {a : Act τ α κ} (h : Up s.pool)
    (hs : s.step a = some s') : Up s'.pool :=
  ⟨rested_step h.rested h.alive hs, (step_flags hs).2.trans h.alive, (step_flags hs).1.trans h.running⟩

/-- A section makes no stray write whose context is still there. -/
theorem PoolSys.stray_eq_none {τ α κ : Type} [DecidableEq τ] {s : PoolSys τ α κ} {a : Act τ α κ}
    (h : ∀ r ctx d, s.write a = some (r, ctx, d) → s.pool.deref r ctx ≠ none) : s.stray a = none := by
  unfold stray
  rw [Option.filter_eq_none_iff]
  rintro ⟨r, ctx, d⟩ hw hnone
  exact h r ctx d hw (Option.isNone_iff_eq_none.1 hnone)

theorem PoolSys.stray_thread {τ α κ : Type} [DecidableEq τ] {s : PoolSys τ α κ} {t : τ} {o : Oracle}
    (hb : ∀ b nodes ctx, s.threads t = .bump b nodes ctx → s.pool.deref b.requestId ctx ≠ none)
    (hc : ∀ r ctx n, s.threads t = .cancelUpdate r ctx n → s.pool.deref r ctx ≠ none) :
    s.stray (.thread t o) = none := by
  refine stray_eq_none fun r ctx d hw => ?_
  simp only [write] at hw
  split at hw
  · rename_i hpc
    cases hw
    exact hb _ _ _ hpc
  · rename_i hpc
    cases hw
    exact hc _ _ _ hpc
  · cases hw

theorem PoolSys.stray_worker {τ α κ : Type} [DecidableEq τ] {s : PoolSys τ α κ} {i : Fin 64} {o : Oracle}
    (h : s.pool.Live i) : s.stray (.worker i o) = none := by
  refine stray_eq_none fun r ctx d hw => ?_
  simp only [write] at hw
  split at hw
  · rename_i hpc
    cases hw
    exact h _ _ hpc
  · cases hw

theorem PoolSys.exec_thread_cons {τ α κ : Type} [DecidableEq τ] {s s' : PoolSys τ α κ} {t : τ} {o : Oracle}
    {p : Pool τ α κ} {pc : Pc τ α κ} {as : List (Act τ α κ)} (hp : s.pool.threadStep t o (s.threads t) = some (p, pc))
    (h : Lts.exec step ({ s with pool := p }.setThread t pc) as = some s') :
    Lts.exec step s (.thread t o :: as) = some s' := by
  refine Lts.exec_cons.2 ⟨_, ?_, h⟩
  rw [step, hp, Option.map_some]

end OsTransport
