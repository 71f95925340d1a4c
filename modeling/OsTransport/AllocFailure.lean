import OsTransport.Fifo
import OsTransport.Submission

/-!
# Submissions that run out of memory

A submission that no other thread disturbs, but for the workers whose mutex it waits for, is all-or-nothing for every
choice of failing allocations but one: the tasks are queued, the request has no context, and the allocation of its
context fails (`allOrNothing_iff`). A batch is then reported as submitted, and `thread_pool_submit_task` writes through
a NULL pointer.
-/

namespace OsTransport
open Lts

/-- Which allocations of a submission succeed: the id array of a batch, the wrapper, the task and the list node of
every task, and the request context. -/
structure Allocs where
  ids : Bool
  wrapper : Nat → Bool
  task : Nat → Bool
  node : Nat → Bool
  context : Bool

namespace Allocs

/-- What a section of a submission gets from its allocations. -/
def oracle {τ α κ : Type} (a : Allocs) : Pc τ α κ → Oracle
  | .create _ _ nodes => { ok := a.wrapper nodes.length && a.task nodes.length, okNode := a.node nodes.length }
  | .attach .. => { okNode := a.node 0 }
  | .insert .. => { ok := a.context }
  | _ => {}

/-- The id array and the first `n` tasks of `b` are there. -/
def Granted {α κ : Type} (a : Allocs) (b : Submit α κ) (n : Nat) : Prop :=
  (b.batch = true → a.ids = true) ∧
    ∀ k < n, a.wrapper k = true ∧ a.task k = true ∧ (b.batch = true → a.node k = true)

/-- Every allocation but that of the context succeeds. -/
def Grants {α κ : Type} (a : Allocs) (b : Submit α κ) : Prop :=
  (b.batch = true → a.ids = true) ∧ ∀ k < b.args.length, a.wrapper k = true ∧ a.task k = true ∧ a.node k = true

end Allocs

namespace Pool
variable {τ α κ : Type} [DecidableEq τ]

/-- All the tasks of the submission `b` of call `t`. -/
def Whole (t : τ) (b : Submit α κ) (nodes : List (ThreadPoolTask τ α κ)) : Prop :=
  Made t b nodes ∧ nodes.length = b.args.length

/-- What a submission has come to that was made on the pool `p₀`. -/
inductive Tried (p₀ : Pool τ α κ) (t : τ) (b : Submit α κ) (a : Allocs) (p : Pool τ α κ) : Ret → Prop
  | refused (n : Nat) (hn : n ≤ 64) (hno : (∀ i, ¬p₀.Chooses i) ∨ ¬a.Grants b) (h : Agree p (p₀.awaited n)) :
      Tried p₀ t b a p .null
  | placed (i : Fin 64) (nodes : List (ThreadPoolTask τ α κ)) (hsel : p₀.Chooses i) (hn : Whole t b nodes)
      (hctx : a.context = true ∨ (p₀.awaited (i + 1)).findReqContext b.requestId ≠ none)
      (hw : p.workers = ((p₀.awaited (i + 1)).putOn i nodes b.count).workers)
      (hr : p.reqHash = ((p₀.awaited (i + 1)).updateContext t b i).reqHash) : Tried p₀ t b a p (taskIds nodes)
  | uncounted (i : Fin 64) (nodes : List (ThreadPoolTask τ α κ)) (hsel : p₀.Chooses i) (hg : a.Grants b)
      (hctx : a.context = false) (hf : (p₀.awaited (i + 1)).findReqContext b.requestId = none)
      (hr : p.reqHash = (p₀.awaited (i + 1)).reqHash) : Tried p₀ t b a p (taskIds nodes)

/-- Where the submission of `b` stands that was made on the pool `p₀` as call `t`. -/
def Trying (p₀ : Pool τ α κ) (t : τ) (b : Submit α κ) (a : Allocs) (p : Pool τ α κ) : Pc τ α κ → Prop
  | .select b' nodes i best _ => b' = b ∧ best = none ∧ Coming p₀ i p ∧
      (if b.batch then a.Granted b 0 else a.Granted b b.args.length ∧ Whole t b nodes)
  | .create b' w nodes => b' = b ∧
      (if b.batch then ∃ i, w = some i ∧ p₀.Chooses i ∧ Agree p (p₀.awaited (i + 1)) else w = none ∧ Agree p p₀) ∧
      a.Granted b nodes.length ∧ Made t b nodes ∧ nodes.length < b.args.length
  | .attach b' i nodes => b' = b ∧ p₀.Chooses i ∧ Whole t b nodes ∧ a.Granted b b.args.length ∧
      Agree p (p₀.awaited (i + 1))
  | .findCtx b' i nodes => b' = b ∧ p₀.Chooses i ∧ Whole t b nodes ∧ a.Grants b ∧
      p.workers = ((p₀.awaited (i + 1)).putOn i nodes b.count).workers ∧ p.reqHash = (p₀.awaited (i + 1)).reqHash
  | .bump b' nodes ctx => b' = b ∧ ∃ i c, p₀.Chooses i ∧ Whole t b nodes ∧
      p.workers = ((p₀.awaited (i + 1)).putOn i nodes b.count).workers ∧ p.reqHash = (p₀.awaited (i + 1)).reqHash ∧
      (p₀.awaited (i + 1)).findReqContext b.requestId = some c ∧ ctx = c.owner
  | .insert b' i nodes => b' = b ∧ p₀.Chooses i ∧ Whole t b nodes ∧ a.Grants b ∧
      p.workers = ((p₀.awaited (i + 1)).putOn i nodes b.count).workers ∧ p.reqHash = (p₀.awaited (i + 1)).reqHash ∧
      (p₀.awaited (i + 1)).findReqContext b.requestId = none
  | .done ret => Tried p₀ t b a p ret
  | _ => False

variable {p₀ p p' : Pool τ α κ} {t : τ} {b : Submit α κ} {a : Allocs}

theorem Trying.select {nodes : List (ThreadPoolTask τ α κ)} {i : Fin 64} {best : Option (Fin 64)} {minLoad : UInt32}
    (h₀ : p₀.Rested) (hd : p₀.isDestroying = false) (hl : p₀.HoldsLive)
    (h : Trying p₀ t b a p (.select b nodes i best minLoad)) (hm : (p.workers i).mutexFree = true) :
    Trying p₀ t b a p (p.selectStep b nodes i best minLoad) := by
  obtain ⟨-, rfl, hcoming, hmade⟩ := h
  rcases hcoming.select hl hd h₀ hm b nodes minLoad with ⟨hsel, hagree, hs⟩ | ⟨hi, hnext, hs⟩ | ⟨hno, hagree, hs⟩ <;>
    rw [hs]
  · unfold afterSelect
    cases hb : b.batch with
    | true =>
      rw [hb] at hmade
      simp only [if_true] at hmade ⊢
      exact ⟨rfl, by simp only [hb, if_true]; exact ⟨i, rfl, hsel, hagree⟩, hmade, .nil,
        by simpa [List.length_pos_iff] using b.args_ne⟩
    | false =>
      rw [hb] at hmade
      simp only [Bool.false_eq_true, if_false] at hmade ⊢
      exact ⟨rfl, hsel, hmade.2, hmade.1, hagree⟩
  · exact ⟨rfl, rfl, hnext, hmade⟩
  · exact .refused 64 le_rfl (.inl hno) hagree

theorem Trying.create {w : Option (Fin 64)} {nodes : List (ThreadPoolTask τ α κ)} {pc' : Pc τ α κ}
    (hd : p₀.isDestroying = false) (hl : p₀.HoldsLive) (h : Trying p₀ t b a p (.create b w nodes))
    (hs : p.threadStep t (a.oracle (.create b w nodes)) (.create b w nodes) = some (p', pc')) :
    Trying p₀ t b a p' pc' := by
  obtain ⟨-, hsel, hg, hn, hlt⟩ := h
  have hat : ∃ n ≤ 64, Agree p (p₀.awaited n) := by
    split at hsel
    · obtain ⟨i, -, -, hagree⟩ := hsel
      exact ⟨i + 1, i.isLt, hagree⟩
    · exact ⟨0, Nat.zero_le 64, hsel.2⟩
  obtain ⟨n, hn64, hagree⟩ := hat
  have hagree' : ∀ {q : Pool τ α κ}, Agree p q → Agree { p with nextTaskId := p.nextTaskId + 1 } q :=
    fun h => ⟨h.workers, h.reqHash, h.alive⟩
  have ha : b.args[nodes.length]? = some b.args[nodes.length] := List.getElem?_eq_getElem hlt
  simp only [threadStep, ha, Allocs.oracle] at hs
  cases hok : a.wrapper nodes.length && a.task nodes.length with
  | false =>
    simp only [hok, Bool.not_false, if_true, Option.some.injEq, Prod.mk.injEq] at hs
    obtain ⟨rfl, rfl⟩ := hs
    refine .refused n hn64 (.inr fun hall => ?_) hagree
    obtain ⟨hwr, htask, -⟩ := hall.2 _ hlt
    simp [hwr, htask] at hok
  | true =>
  obtain ⟨hwr, htask⟩ : a.wrapper nodes.length = true ∧ a.task nodes.length = true := by simpa using hok
  cases hok' : b.batch && !a.node nodes.length with
  | true =>
    simp only [hok, hok', Bool.not_true, Bool.false_eq_true, if_false, if_true, Option.some.injEq, Prod.mk.injEq] at hs
    obtain ⟨rfl, rfl⟩ := hs
    refine .refused n hn64 (.inr fun hall => ?_) (hagree' hagree)
    have hnode := (hall.2 _ hlt).2.2
    simp [hnode] at hok'
  | false =>
  simp only [hok, hok', Bool.not_true, Bool.false_eq_true, if_false, Option.some.injEq, Prod.mk.injEq] at hs
  obtain ⟨rfl, rfl⟩ := hs
  have hg' : a.Granted b (nodes ++ [p.createNode t b nodes.length b.args[nodes.length]]).length := by
    refine ⟨hg.1, fun k hk => ?_⟩
    rw [List.length_append, List.length_singleton] at hk
    rcases Nat.lt_succ_iff_lt_or_eq.1 hk with hk | rfl
    · exact hg.2 k hk
    · refine ⟨hwr, htask, fun hb => ?_⟩
      simpa [hb] using hok'
  have hn' := hn.snoc p ha
  unfold afterCreate
  split
  · rename_i hlt'
    refine ⟨rfl, ?_, hg', hn', hlt'⟩
    split at hsel <;> rename_i hb
    · obtain ⟨i, hw, hsel, hi⟩ := hsel
      rw [if_pos hb]
      exact ⟨i, hw, hsel, hagree' hi⟩
    · rw [if_neg hb]
      exact ⟨hsel.1, hagree' hsel.2⟩
  · rename_i hge
    have hlen : (nodes ++ [p.createNode t b nodes.length b.args[nodes.length]]).length = b.args.length := by
      simp at hge ⊢
      omega
    rw [hlen] at hg'
    cases hb : b.batch with
    | true =>
      simp only [hb, if_true] at hsel
      obtain ⟨i, rfl, hsel, hi⟩ := hsel
      exact ⟨rfl, hsel, ⟨hn', hlen⟩, hg', hagree' hi⟩
    | false =>
      simp only [hb, Bool.false_eq_true, if_false] at hsel
      obtain ⟨rfl, hi⟩ := hsel
      exact ⟨rfl, rfl, .start hl hd (hagree' hi), by simp only [hb]; exact ⟨hg', hn', hlen⟩⟩

theorem Trying.attach {i : Fin 64} {nodes : List (ThreadPoolTask τ α κ)} {pc' : Pc τ α κ}
    (hone : b.batch = false → b.args.length = 1) (hd : p₀.isDestroying = false)
    (h : Trying p₀ t b a p (.attach b i nodes))
    (hs : p.threadStep t (a.oracle (.attach b i nodes)) (.attach b i nodes) = some (p', pc')) :
    Trying p₀ t b a p' pc' := by
  obtain ⟨-, hsel, hn, hg, hagree⟩ := h
  have hm : (p.workers i).mutexFree = true := by
    rw [hagree.workers]
    exact awaited_mutexFree hd i
  simp only [threadStep, hm, Allocs.oracle, Bool.not_true, Bool.false_eq_true, if_false] at hs
  cases hb : b.batch with
  | true =>
    have hg' : a.Grants b := ⟨hg.1, fun k hk => ⟨(hg.2 k hk).1, (hg.2 k hk).2.1, (hg.2 k hk).2.2 hb⟩⟩
    simp only [hb, if_true, Option.some.injEq, Prod.mk.injEq] at hs
    obtain ⟨rfl, rfl⟩ := hs
    exact ⟨rfl, hsel, hn, hg', by simp [putOn, setWorker, hagree.workers], hagree.reqHash⟩
  | false =>
  have hlen := hone hb
  cases hnode : a.node 0 with
  | false =>
    simp only [hb, hnode, Bool.false_eq_true, if_false, Bool.not_false, if_true, Option.some.injEq, Prod.mk.injEq] at hs
    obtain ⟨rfl, rfl⟩ := hs
    refine .refused (i + 1) i.isLt (.inr fun hall => ?_) hagree
    have := (hall.2 0 (by omega)).2.2
    rw [hnode] at this
    cases this
  | true =>
    have hg' : a.Grants b := ⟨hg.1, fun k hk => ⟨(hg.2 k hk).1, (hg.2 k hk).2.1, by
      obtain rfl : k = 0 := by omega
      exact hnode⟩⟩
    simp only [hb, hnode, Bool.false_eq_true, if_false, Bool.not_true, Option.some.injEq, Prod.mk.injEq] at hs
    obtain ⟨rfl, rfl⟩ := hs
    refine ⟨rfl, hsel, hn, hg', ?_, hagree.reqHash⟩
    simp [putOn, setWorker, hagree.workers, foldl_workerQueuePush, WorkerThread.attachNodesToWorker, hn.2, Submit.count]

theorem Trying.step {pc pc' : Pc τ α κ} (h₀ : p₀.Rested) (hd : p₀.isDestroying = false) (hl : p₀.HoldsLive)
    (hone : b.batch = false → b.args.length = 1) (h : Trying p₀ t b a p pc)
    (hs : p.threadStep t (a.oracle pc) pc = some (p', pc')) : Trying p₀ t b a p' pc' := by
  cases pc with
  | select b' nodes i best minLoad =>
    obtain ⟨rfl, -⟩ := id h
    cases threadStep_cases hs with
    | select _ _ _ _ _ hm => exact h.select h₀ hd hl hm
  | create b' w nodes =>
    obtain ⟨rfl, -⟩ := id h
    exact h.create hd hl hs
  | attach b' i nodes =>
    obtain ⟨rfl, -⟩ := id h
    exact h.attach hone hd hs
  | findCtx b' i nodes =>
    obtain ⟨rfl, hsel, hn, hg, hw, hr⟩ := h
    cases threadStep_cases hs with
    | findSome _ _ _ ctx hf =>
      refine ⟨rfl, i, ctx, hsel, hn, hw, hr, ?_, rfl⟩
      rw [← hf, findReqContext, findReqContext, hr]
    | findNone _ _ _ hf =>
      refine ⟨rfl, hsel, hn, hg, hw, hr, ?_⟩
      rw [← hf, findReqContext, findReqContext, hr]
  | bump b' nodes ctx =>
    obtain ⟨rfl, i, c, hsel, hn, hw, hr, hf, rfl⟩ := h
    cases threadStep_cases hs with
    | bump =>
      refine .placed i nodes hsel hn (.inr (by simp [hf])) hw ?_
      simp only [updateContext, hf, addPending, setChain, hr]
  | insert b' i nodes =>
    obtain ⟨rfl, hsel, hn, hg, hw, hr, hf⟩ := h
    cases threadStep_cases hs with
    | insert _ _ _ ho =>
      refine .placed i nodes hsel hn (.inl ho) hw ?_
      simp only [updateContext, hf, insertReqContext, setChain, hr]
    | insertFail _ _ _ ho => exact .uncounted i nodes hsel hg ho hf hr
  | done ret => cases hs
  | _ => exact h.elim

theorem Trying.worker {i : Fin 64} {o : Oracle} {pc : Pc τ α κ} (hd : p₀.isDestroying = false)
    (h : Trying p₀ t b a p pc) (hi : p.waitsFor pc = some i) : p.isDestroying = false ∧ p.Live i ∧
      ∀ p', p.workerStep i o = some p' → Trying p₀ t b a p' pc := by
  obtain ⟨hlocks, hm⟩ := waitsFor_eq_some.1 hi
  cases pc with
  | select b' nodes j best minLoad =>
    cases hlocks
    obtain ⟨rfl, rfl, hcoming, hmade⟩ := h
    exact ⟨hcoming.alive, hcoming.live, fun p' hs => ⟨rfl, rfl, hcoming.worker hm hs, hmade⟩⟩
  | attach b' j nodes =>
    cases hlocks
    obtain ⟨-, -, -, -, hagree⟩ := h
    rw [hagree.workers, awaited_mutexFree hd] at hm
    cases hm
  | wakeSet | cancelQueue => exact h.elim
  | _ => cases hlocks

/-- `thread_pool_submit_task` has no memory for the context and uses it all the same. -/
def Crashes (a : Allocs) : Pc τ α κ → Prop
  | .insert b _ _ => b.batch = false ∧ a.context = false
  | _ => False

/-- A bound on the sections a submission of `n` tasks still has to run. -/
def left (n : Nat) : Pc τ α κ → Nat
  | .create _ w nodes => n - nodes.length + 4 + if w.isNone then 64 + n else 0
  | pc => pc.toGo n

theorem Trying.progress {pc : Pc τ α κ} (h₀ : p₀.Rested) (hd : p₀.isDestroying = false) (hl : p₀.HoldsLive)
    (h : Trying p₀ t b a p pc) (hno : p.waitsFor pc = none) :
    ((∃ ret, pc = .done ret) ∨ Crashes a pc) ∨ ∃ p' pc',
      p.threadStep t (a.oracle pc) pc = some (p', pc') ∧ left b.args.length pc' < left b.args.length pc := by
  cases pc with
  | select b' nodes i best minLoad =>
    obtain ⟨rfl, rfl, hcoming, -⟩ := h
    have hm : (p.workers i).mutexFree = true := by
      by_contra hm
      rw [waitsFor_eq_some.2 ⟨rfl, Bool.eq_false_iff.2 hm⟩] at hno
      cases hno
    refine .inr ⟨p, p.selectStep b' nodes i none minLoad, by simp only [threadStep, hm, if_true], ?_⟩
    rcases hcoming.select hl hd h₀ hm b' nodes minLoad with ⟨-, -, hs⟩ | ⟨hi, -, hs⟩ | ⟨-, -, hs⟩ <;> rw [hs]
    · unfold afterSelect
      split
      · simp only [left, Pc.toGo, Option.isNone_some, Bool.false_eq_true, if_false, List.length_nil]
        omega
      · simp only [left, Pc.toGo]
        omega
    · simp only [left, Pc.toGo]
      omega
    · simp only [left, Pc.toGo]
      omega
  | create b' w nodes =>
    obtain ⟨rfl, -, -, -, hlt⟩ := h
    have ha : b'.args[nodes.length]? = some b'.args[nodes.length] := List.getElem?_eq_getElem hlt
    have hnull : left b'.args.length (.done .null : Pc τ α κ) < left b'.args.length (.create b' w nodes) := by
      simp only [left, Pc.toGo]
      omega
    refine .inr ?_
    rcases Bool.eq_false_or_eq_true (a.wrapper nodes.length && a.task nodes.length) with hok | hok
    swap
    · exact ⟨p, _, by simp only [threadStep, ha, Allocs.oracle, hok]; rfl, hnull⟩
    rcases Bool.eq_false_or_eq_true (b'.batch && !a.node nodes.length) with hok' | hok'
    · exact ⟨{ p with nextTaskId := p.nextTaskId + 1 }, _, by simp only [threadStep, ha, Allocs.oracle, hok, hok']; rfl, hnull⟩
    · refine ⟨{ p with nextTaskId := p.nextTaskId + 1 },
        afterCreate b' w (nodes ++ [p.createNode t b' nodes.length b'.args[nodes.length]]),
        by simp only [threadStep, ha, Allocs.oracle, hok, hok']; rfl, ?_⟩
      unfold afterCreate
      split
      · simp only [left, List.length_append, List.length_singleton]
        omega
      · cases w with
        | none =>
          simp only [left, Pc.toGo, Option.isNone_none, if_true, Fin.val_zero]
          omega
        | some i =>
          simp only [left, Pc.toGo, Option.isNone_some, Bool.false_eq_true, if_false]
          omega
  | attach b' i nodes =>
    obtain ⟨rfl, -, -, -, hagree⟩ := h
    have hm : (p.workers i).mutexFree = true := by
      rw [hagree.workers]
      exact awaited_mutexFree hd i
    refine .inr ?_
    simp only [threadStep, hm, Bool.not_true, Bool.false_eq_true, if_false]
    split
    · exact ⟨_, _, rfl, by simp [left, Pc.toGo]⟩
    split <;> exact ⟨_, _, rfl, by simp [left, Pc.toGo]⟩
  | findCtx b' i nodes =>
    obtain ⟨rfl, -⟩ := h
    refine .inr ?_
    simp only [threadStep]
    split <;> exact ⟨_, _, rfl, by simp [left, Pc.toGo]⟩
  | bump b' nodes ctx => exact .inr ⟨_, _, rfl, by simp [left, Pc.toGo]⟩
  | insert b' i nodes =>
    rcases Bool.eq_false_or_eq_true a.context with hctx | hctx
    · exact .inr ⟨p.insertReqContext (newContext t b' i), .done (taskIds nodes), by simp [threadStep, Allocs.oracle, hctx],
        by simp [left, Pc.toGo]⟩
    rcases Bool.eq_false_or_eq_true b'.batch with hb | hb
    · exact .inr ⟨p, .done (taskIds nodes), by simp [threadStep, Allocs.oracle, hctx, hb], by simp [left, Pc.toGo]⟩
    · exact .inl (.inr ⟨hb, hctx⟩)
  | done ret => exact .inl (.inl ⟨ret, rfl⟩)
  | _ => exact h.elim

end Pool

namespace PoolSys
variable {τ α κ : Type} [DecidableEq τ] {s s' : PoolSys τ α κ} {t : τ} {a : Allocs}

/-! ### In any state that is reached -/

omit [DecidableEq τ] in
theorem Up.congr {p p' : Pool τ α κ} (h : Up p)
    (hw : ∀ i, (p'.workers i).pc = (p.workers i).pc ∧ (p'.workers i).state = (p.workers i).state)
    (hd : p'.isDestroying = p.isDestroying) (hr : p'.isRunning = p.isRunning) : Up p' := by
  refine ⟨fun i hi => ?_, hd.trans h.alive, hr.trans h.running⟩
  rw [(hw i).2]
  refine h.rested i ?_
  rwa [WorkerThread.mutexFree_iff, (hw i).1, ← WorkerThread.mutexFree_iff] at hi

theorem Up.strike (h : Up s.pool) (d : Int32) (v : Tenant τ) : Up (s.strike d v).pool := by
  cases v with
  | other => exact h
  | task u k => exact h.congr (fun _ => ⟨rfl, rfl⟩) rfl rfl
  | context r u => exact h.congr (fun _ => ⟨rfl, rfl⟩) rfl rfl

/-- No write to a freed context changes what the workers are doing. -/
theorem Up.memStep {x : Act τ α κ × Tenant τ} (h : Up s.pool) (hs : s.memStep x = some s') : Up s'.pool := by
  obtain ⟨x, v⟩ := x
  unfold PoolSys.memStep at hs
  split at hs
  · exact h.step hs
  · rename_i d _
    have hstruck := h.strike d v
    cases x with
    | call u c o => cases hs
    | thread u o => exact hstruck.step (a := .thread u ((s.strike d v).zero v o)) hs
    | worker i o =>
      obtain ⟨s₁, hs₁, hs⟩ := Option.bind_eq_some_iff.1 hs
      have h₁ := hstruck.step hs₁
      split at hs
      · cases hs
      · rename_i hpc
        cases hs
        refine ⟨fun j hj => ?_, h₁.alive, h₁.running⟩
        rcases eq_or_ne j i with rfl | hne
        · simp [WorkerThread.mutexFree] at hj
        · simp only [Pool.setPc_workers_ne _ hne] at hj ⊢
          exact h₁.rested j hj
      · cases hs
        exact h₁

omit [DecidableEq τ] in
theorem up_start : Up (start : PoolSys τ α κ).pool := ⟨fun _ _ => rfl, rfl, rfl⟩

theorem up_exec {xs : List (Act τ α κ × Tenant τ)} (h : exec memStep start xs = some s) : Up s.pool :=
  exec_inv' (I := fun s : PoolSys τ α κ => Up s.pool) (fun _ _ _ hu hs => hu.memStep hs) up_start h

/-! ### A submission -/

/-- The next section of the call `t`, its allocations going as `a` says, or of the worker whose mutex it waits for. -/
def ownStep (t : τ) (a : Allocs) (s : PoolSys τ α κ) (m : Oracle × Tenant τ) : Option (PoolSys τ α κ) :=
  match s.pool.waitsFor (s.threads t) with
  | some i => s.memStep (.worker i m.1, m.2)
  | none => s.memStep (.thread t (a.oracle (s.threads t)), m.2)

/-- The tasks of the submission `b` are queued on one worker, their ids are reported, and a context of their request
counts them. -/
def Counted (p₀ : Pool τ α κ) (t : τ) (b : Submit α κ) (p : Pool τ α κ) (ret : Ret) : Prop :=
  ∃ i nodes c, ret = Pool.taskIds nodes ∧ Pool.Whole t b nodes ∧
    (∀ j, (p.workers j).queue = (if j = i then (p₀.workers j).queue ++ nodes else (p₀.workers j).queue) ∧
      (p.workers j).pc = (p₀.workers j).pc) ∧
    p.findReqContext b.requestId = some c ∧
    c.pendingCount = (p₀.findReqContext b.requestId).elim 0 (·.pendingCount) + b.count.toInt32

/-- The submission `c`, made as call `t` with the allocations `a`, returns when the workers that it waits for get on
with their tasks. Against the pool where `n` workers have done that, it reports failure and no queue has changed nor
the table, or it reports success and all its tasks are queued and counted. -/
def AllOrNothing (s : PoolSys τ α κ) (t : τ) (c : Call α κ) (a : Allocs) : Prop :=
  ∃ s₁, s.step (.call t c { ok := a.ids }) = some s₁ ∧ ∀ ms : Nat → Oracle × Tenant τ, ∃ k s',
    exec (ownStep t a) s₁ ((List.range k).map ms) = some s' ∧ ∃ ret n, s'.threads t = .done ret ∧ n ≤ 64 ∧
      (ret = .null ∧ (s.pool.awaited n).Restored s'.pool ∨
        ∃ b, c.submit? = some b ∧ Counted (s.pool.awaited n) t b s'.pool ret)

/-- The allocation of the context is the one that fails, when the tasks are queued already. -/
def LastFails (p : Pool τ α κ) (b : Submit α κ) (a : Allocs) : Prop :=
  ∃ i, p.Chooses i ∧ a.Grants b ∧ a.context = false ∧ (p.awaited (i + 1)).findReqContext b.requestId = none

/-- The submission of `b` as call `t` is on its way. -/
structure Try (p₀ : Pool τ α κ) (t : τ) (b : Submit α κ) (a : Allocs) : Prop where
  up : Up p₀
  live : p₀.HoldsLive
  one : b.batch = false → b.args.length = 1

variable {p₀ : Pool τ α κ} {b : Submit α κ} {m : Oracle × Tenant τ}

theorem trying_noStray {o : Oracle} {v : Tenant τ} (h : Pool.Trying p₀ t b a s.pool (s.threads t)) :
    NoStray s (.thread t o, v) := by
  refine stray_thread (fun b' nodes x hpc => ?_) fun r x n hpc => ?_ <;> rw [hpc] at h
  · obtain ⟨rfl, i, c, -, -, -, hr, hf, rfl⟩ := h
    have hc : s.pool.findReqContext b'.requestId = some c := by
      rw [← hf, Pool.findReqContext, Pool.findReqContext, hr]
    exact Option.isSome_iff_ne_none.1 (Option.isSome_iff_exists.2 ⟨c, Pool.deref_of_find hc⟩)
  · exact h.elim

theorem ownStep_wait {i : Fin 64} (hi : s.pool.waitsFor (s.threads t) = some i) (hl : s.pool.Live i) :
    ownStep t a s m = (s.pool.workerStep i m.1).map fun p => { s with pool := p } := by
  simp only [ownStep, hi]
  exact memStep_of_noStray (stray_worker hl)

theorem ownStep_own (hno : s.pool.waitsFor (s.threads t) = none) (h : Pool.Trying p₀ t b a s.pool (s.threads t)) :
    ownStep t a s m = (s.pool.threadStep t (a.oracle (s.threads t)) (s.threads t)).map fun (p, pc) =>
      { s with pool := p }.setThread t pc := by
  simp only [ownStep, hno]
  exact memStep_of_noStray (trying_noStray h)

theorem Try.step (ht : Try p₀ t b a) (h : Pool.Trying p₀ t b a s.pool (s.threads t))
    (hs : ownStep t a s m = some s') : Pool.Trying p₀ t b a s'.pool (s'.threads t) := by
  cases hi : s.pool.waitsFor (s.threads t) with
  | some i =>
    obtain ⟨-, hl, hstep⟩ := h.worker (o := m.1) ht.up.alive hi
    rw [ownStep_wait hi hl] at hs
    obtain ⟨p, hp, rfl⟩ := Option.map_eq_some_iff.1 hs
    exact hstep p hp
  | none =>
    rw [ownStep_own hi h] at hs
    obtain ⟨⟨p, pc⟩, hp, rfl⟩ := Option.map_eq_some_iff.1 hs
    rw [setThread_threads, if_pos rfl]
    exact h.step ht.up.rested ht.up.alive ht.live ht.one hp

/-- A bound on the sections before the submission returns, those of the workers that it waits for included. -/
def remaining (b : Submit α κ) (t : τ) (s : PoolSys τ α κ) : Nat :=
  Pool.left b.args.length (s.threads t) * 8 + s.pool.delay (s.threads t)

theorem Try.progress (ht : Try p₀ t b a) (h : Pool.Trying p₀ t b a s.pool (s.threads t)) :
    ((∃ ret, s.threads t = .done ret) ∨ Pool.Crashes a (s.threads t)) ∨
      ∃ s', ownStep t a s m = some s' ∧ remaining b t s' < remaining b t s := by
  cases hi : s.pool.waitsFor (s.threads t) with
  | some i =>
    obtain ⟨halive, hl, -⟩ := h.worker (o := m.1) ht.up.alive hi
    have hm := (Pool.waitsFor_eq_some.1 hi).2
    obtain ⟨p, hp⟩ := Pool.workerStep_held hm m.1
    refine .inr ⟨{ s with pool := p }, by rw [ownStep_wait hi hl, hp]; rfl, ?_⟩
    exact Nat.add_lt_add_left ((Pool.works halive hm hp).delay_lt hi) _
  | none =>
    refine (h.progress ht.up.rested ht.up.alive ht.live hi).imp_right ?_
    rintro ⟨p, pc, hp, hlt⟩
    refine ⟨{ s with pool := p }.setThread t pc, by rw [ownStep_own hi h, hp]; rfl, ?_⟩
    have hdelay := p.delay_le pc
    simp only [remaining, setThread_threads, if_pos, setThread_pool]
    omega

theorem Try.exec {ms : List (Oracle × Tenant τ)} (ht : Try p₀ t b a) (h : Pool.Trying p₀ t b a s.pool (s.threads t))
    (he : exec (ownStep t a) s ms = some s') : Pool.Trying p₀ t b a s'.pool (s'.threads t) :=
  exec_inv' (I := fun s : PoolSys τ α κ => Pool.Trying p₀ t b a s.pool (s.threads t)) (fun _ _ _ hu hs => ht.step hu hs) h he

/-- A submission returns or crashes, whatever the workers that it waits for meet in their tasks. -/
theorem Try.ends (ht : Try p₀ t b a) (h : Pool.Trying p₀ t b a s.pool (s.threads t)) (ms : Nat → Oracle × Tenant τ) :
    ∃ k s', Lts.exec (ownStep t a) s ((List.range k).map ms) = some s' ∧ Pool.Trying p₀ t b a s'.pool (s'.threads t) ∧
      ((∃ ret, s'.threads t = .done ret) ∨ Pool.Crashes a (s'.threads t)) := by
  have hgo : ∀ u : PoolSys τ α κ, Pool.Trying p₀ t b a u.pool (u.threads t) →
      ((∃ ret, u.threads t = .done ret) ∨ Pool.Crashes a (u.threads t)) ∨
      ∀ m, ∃ u', ownStep t a u m = some u' ∧ Pool.Trying p₀ t b a u'.pool (u'.threads t) ∧
        remaining b t u' < remaining b t u := by
    intro u hu
    by_cases hend : (∃ ret, u.threads t = .done ret) ∨ Pool.Crashes a (u.threads t)
    · exact .inl hend
    · refine .inr fun m => ?_
      obtain ⟨u', hs, hlt⟩ := (ht.progress (m := m) hu).resolve_left hend
      exact ⟨u', hs, ht.step hu hs, hlt⟩
  exact exec_finish id _ hgo h ms

theorem enter_trying {c : Call α κ} (hup : Up s.pool) (hl : s.pool.HoldsLive) (hb : c.submit? = some b) :
    Pool.Trying s.pool t b a s.pool (enter s.pool { ok := a.ids } c) ∧ Try s.pool t b a := by
  have hrun := hup.running
  cases c with
  | submitTask r arg cb =>
    cases hb
    simp only [enter, hrun, if_true]
    refine ⟨⟨rfl, ?_, ⟨fun hb => absurd hb Bool.false_ne_true, fun k hk => absurd hk (Nat.not_lt_zero k)⟩, .nil,
      Nat.one_pos⟩, hup, hl, fun _ => rfl⟩
    exact ⟨rfl, .refl _⟩
  | submitBatch batch =>
    have hval : batch.validate = some b := hb
    have hbatch := (Batch.validate_eq_some hval).1
    refine ⟨?_, hup, hl, fun hf => by rw [hbatch] at hf; cases hf⟩
    simp only [enter, hrun, hval, Bool.not_true, Bool.false_eq_true, if_false]
    split
    · rename_i hids
      refine ⟨rfl, rfl, .start hl hup.alive (.refl _), ?_⟩
      rw [if_pos hbatch]
      exact ⟨fun _ => hids, fun k hk => absurd hk (Nat.not_lt_zero k)⟩
    · rename_i hids
      exact .refused 0 (Nat.zero_le 64) (.inr fun hg => hids (hg.1 hbatch)) (.refl _)
  | _ => cases hb

theorem Counted.of_placed {p₀ p : Pool τ α κ} {b : Submit α κ} {i : Fin 64} {nodes : List (ThreadPoolTask τ α κ)}
    (hn : Pool.Whole t b nodes) (hw : p.workers = (p₀.putOn i nodes b.count).workers)
    (hr : p.reqHash = (p₀.updateContext t b i).reqHash) : Counted p₀ t b p (Pool.taskIds nodes) := by
  have hworker : ∀ j, (p.workers j).queue = (if j = i then (p₀.workers j).queue ++ nodes else (p₀.workers j).queue) ∧
      (p.workers j).pc = (p₀.workers j).pc := by
    intro j
    rw [hw, Pool.putOn, Pool.setWorker_workers]
    split
    · rename_i hj
      rw [hj]
      exact ⟨rfl, rfl⟩
    · exact ⟨rfl, rfl⟩
  have hfind : p.findReqContext b.requestId = (p₀.updateContext t b i).findReqContext b.requestId := by
    rw [Pool.findReqContext, Pool.findReqContext, hr]
  rcases p₀.updateContext_find t b i with ⟨hf, -, hnew⟩ | ⟨c, hf, -, hold⟩
  · refine ⟨i, nodes, _, rfl, hn, hworker, hfind.trans hnew, ?_⟩
    rw [hf]
    exact (Int32.zero_add _).symm
  · refine ⟨i, nodes, _, rfl, hn, hworker, hfind.trans hold, ?_⟩
    rw [hf]
    simp [Pool.bumped]

theorem LastFails.not_done {p p₁ : Pool τ α κ} {ret : Ret} (h : LastFails p₀ b a) (hp : Pool.Tried p₀ t b a p ret) :
    ¬(ret = .null ∧ p₁.Restored p ∨ Counted p₁ t b p ret) := by
  obtain ⟨i, hi, hg, hctx, hf⟩ := h
  cases hp with
  | refused n hn hno hagree =>
    rcases hno with hno | hno
    · exact absurd hi (hno i)
    · exact absurd hg hno
  | placed j nodes hsel hn hctx' hw hr =>
    obtain rfl := hsel.unique hi
    rcases hctx' with hctx' | hctx'
    · rw [hctx] at hctx'
      cases hctx'
    · exact absurd hf hctx'
  | uncounted j nodes hsel hg hctx' hf' hr =>
    rintro (⟨hnull, -⟩ | ⟨i, nodes, c, -, -, -, hc, -⟩)
    · cases hnull
    · rw [Pool.findReqContext, hr] at hc
      rw [Pool.findReqContext, hc] at hf'
      cases hf'

/-- A submission crashes only where its last allocation fails. -/
theorem lastFails_of_crashes {p : Pool τ α κ} {pc : Pc τ α κ} (hp : Pool.Trying p₀ t b a p pc)
    (hc : Pool.Crashes a pc) : LastFails p₀ b a := by
  cases pc with
  | insert b' i nodes =>
    obtain ⟨rfl, hsel, -, hg, -, -, hf⟩ := hp
    exact ⟨i, hsel, hg, hc.2, hf⟩
  | _ => exact hc.elim

theorem returns_of_tried {p : Pool τ α κ} {ret : Ret} (h : ¬LastFails p₀ b a) (hp : Pool.Tried p₀ t b a p ret) :
    ∃ n ≤ 64, ret = .null ∧ (p₀.awaited n).Restored p ∨ Counted (p₀.awaited n) t b p ret := by
  cases hp with
  | refused n hn hno hagree => exact ⟨n, hn, .inl ⟨rfl, .of_eq hagree.workers hagree.reqHash⟩⟩
  | placed i nodes hsel hn hctx hw hr => exact ⟨i + 1, i.isLt, .inr (.of_placed hn hw hr)⟩
  | uncounted i nodes hsel hg hctx hf hr => exact absurd ⟨i, hsel, hg, hctx, hf⟩ h

theorem call_enter (ht : s.threads t = .idle) (c : Call α κ) (o : Oracle) :
    s.step (.call t c o) = some (s.setThread t (enter s.pool o c)) := by
  simp only [step, ht]

theorem not_allOrNothing {c : Call α κ} (hup : Up s.pool) (hl : s.pool.HoldsLive) (ht : s.threads t = .idle)
    (hb : c.submit? = some b) (hlast : LastFails s.pool b a) : ¬AllOrNothing s t c a := by
  rintro ⟨s₁, hs₁, hall⟩
  cases (call_enter ht c _).symm.trans hs₁
  obtain ⟨k, s', he, ret, n, hret, -, hout⟩ := hall fun _ => ({}, .other)
  obtain ⟨htry, htry'⟩ := enter_trying (t := t) (a := a) hup hl hb
  have htried := htry'.exec (by rw [setThread_threads, if_pos rfl]; exact htry) he
  rw [hret] at htried
  refine hlast.not_done htried (hout.imp_right ?_)
  rintro ⟨b', hb', hcount⟩
  rwa [← Option.some.inj (hb.symm.trans hb')] at hcount

/-- A submission is all-or-nothing if and only if it is not the allocation of the context alone that fails. None of the
workers that the selection comes to writes to a freed context. -/
theorem allOrNothing_iff {xs : List (Act τ α κ × Tenant τ)} {c : Call α κ} (h : exec memStep start xs = some s)
    (hl : s.pool.HoldsLive) (ht : s.threads t = .idle)
    (hc : (∃ r arg cb, c = .submitTask r arg cb) ∨ ∃ batch, c = .submitBatch batch) :
    AllOrNothing s t c a ↔ ∀ b, c.submit? = some b → ¬LastFails s.pool b a := by
  have hup := up_exec h
  have hself : (s.setThread t (enter s.pool { ok := a.ids } c)).threads t = enter s.pool { ok := a.ids } c := by
    rw [setThread_threads, if_pos rfl]
  refine ⟨fun hall b hb hlast => not_allOrNothing hup hl ht hb hlast hall, fun hno => ?_⟩
  refine ⟨_, call_enter ht c _, fun ms => ?_⟩
  cases hb : c.submit? with
  | none =>
    -- the checks of the arguments refuse the batch
    have henter : enter s.pool { ok := a.ids } c = .done .null := by
      rcases hc with ⟨r, arg, cb, rfl⟩ | ⟨batch, rfl⟩
      · cases hb
      · have hval : batch.validate = none := hb
        simp [enter, hup.running, hval]
    exact ⟨0, _, rfl, .null, 0, hself.trans henter, Nat.zero_le 64, .inl ⟨rfl, .of_eq rfl rfl⟩⟩
  | some b =>
    obtain ⟨htry, htry'⟩ := enter_trying (t := t) (a := a) hup hl hb
    obtain ⟨k, s', he, htried, hend⟩ := htry'.ends (s := s.setThread t (enter s.pool { ok := a.ids } c))
      (by rw [hself]; exact htry) ms
    refine ⟨k, s', he, ?_⟩
    rcases hend with ⟨ret, hret⟩ | hcrash
    · rw [hret] at htried
      obtain ⟨n, hn, hout⟩ := returns_of_tried (hno b hb) htried
      exact ⟨ret, n, hret, hn, hout.imp_right fun hcount => ⟨b, rfl, hcount⟩⟩
    · exact absurd (lastFails_of_crashes htried hcrash) (hno b hb)

/-! ### Submissions of two tasks -/

def twoOfSeven : Call Unit Unit := .submitBatch ⟨[(7, ()), (7, ())], none, none, twoTasks.count_lt⟩

/-- A task of request 3 is submitted and woken up, and worker 0 takes it. -/
def takenRun : List (Act (Fin 3) Unit Unit) :=
  .call 0 (.submitTask 3 () none) {} :: List.replicate 5 (.thread 0 {}) ++
    .call 1 (.wakeUp 3) {} :: List.replicate 3 (.thread 1 {}) ++ [.worker 0 {}]

def taken : PoolSys (Fin 3) Unit Unit := last memStep start (quiet takenRun) (by decide +kernel)

/-- While worker 0 executes a task, the list node of the second task cannot be had. -/
theorem secondNode_refused : (taken.pool.workers 0).mutexFree = false ∧ AllOrNothing taken 2 twoOfSeven
    ⟨true, fun _ => true, fun _ => true, fun k => k == 0, true⟩ := by
  have hlive : taken.pool.HoldsLive := .of_held (by decide +kernel) (by decide +kernel)
  refine ⟨by decide +kernel, (allOrNothing_iff (exec_last _) hlive (by decide +kernel) (.inr ⟨_, rfl⟩)).2 fun b hb hlast => ?_⟩
  cases hb
  obtain ⟨-, -, hg, -⟩ := hlast
  have := (hg.2 1 (by decide)).2.2
  cases this

/-- All memory but that of the context. -/
def noContext : Allocs := ⟨true, fun _ => true, fun _ => true, fun _ => true, false⟩

/-- The batch is reported with its two ids, and both tasks are queued, but the request has no context. A single task
is queued when the write to its context crashes the process. -/
theorem noContext_reported : ¬AllOrNothing (start : PoolSys (Fin 2) Unit Unit) 0 twoOfSeven noContext ∧
    (∃ s' : PoolSys (Fin 2) Unit Unit,
      exec (ownStep 0 noContext) (start.setThread 0 (enter start.pool {} twoOfSeven)) (List.replicate 6 ({}, .other)) =
        some s' ∧
      s'.threads 0 = .done (.ids [1, 2]) ∧ (s'.pool.queued 0 7).length = 2 ∧ s'.pool.findReqContext 7 = none) ∧
    ∃ s' : PoolSys (Fin 2) Unit Unit,
      exec (ownStep 0 noContext) (start.setThread 0 (enter start.pool {} (.submitTask 7 () none)))
        (List.replicate 4 ({}, .other)) = some s' ∧
      (s'.pool.queued 0 7).length = 1 ∧ (ownStep 0 noContext s' ({}, .other)).isSome = false := by
  refine ⟨not_allOrNothing up_start (.of_held rfl fun _ _ => by simp [start, Pool.threadPoolInit, Pool.threadPoolStart, WorkerPc.held]) rfl rfl
    ⟨0, ⟨rfl, fun j hj => absurd hj (Fin.not_lt_zero j)⟩, ⟨fun _ => rfl, fun _ _ => ⟨rfl, rfl, rfl⟩⟩, rfl, by decide +kernel⟩,
    ⟨last (ownStep 0 noContext) _ _ (by decide +kernel), exec_last _, ?_⟩,
    ⟨last (ownStep 0 noContext) _ _ (by decide +kernel), exec_last _, ?_⟩⟩ <;> decide +kernel

end PoolSys
end OsTransport
