import OsTransport.ThreadPoolStep

/-!
# What each section does to one request

The request table read through `ctxs r` (the contexts of `r`) and the queues read through
`queued i r` (the tasks of `r` on worker `i`). Looking up, inserting, unlinking and counting act on
the contexts of their own id alone, whatever else hashes to the same chain.
-/

namespace OsTransport
namespace Pool

variable {τ α κ : Type} (p : Pool τ α κ)

@[simp] theorem setWorker_workers_self (i : Fin 64) (w : WorkerThread τ α κ) :
    (p.setWorker i w).workers i = w := by simp [setWorker]

theorem setWorker_workers_ne {i j : Fin 64} (h : j ≠ i) (w : WorkerThread τ α κ) :
    (p.setWorker i w).workers j = p.workers j := by simp [setWorker, h]

theorem setWorker_workers (i j : Fin 64) (w : WorkerThread τ α κ) :
    (p.setWorker i w).workers j = if j = i then w else p.workers j := by
  simp [setWorker, Function.update_apply]

@[simp] theorem setWorker_reqHash (i : Fin 64) (w : WorkerThread τ α κ) :
    (p.setWorker i w).reqHash = p.reqHash := rfl

@[simp] theorem setWorker_hist (i : Fin 64) (w : WorkerThread τ α κ) :
    (p.setWorker i w).hist = p.hist := rfl

@[simp] theorem setWorker_isRunning (i : Fin 64) (w : WorkerThread τ α κ) :
    (p.setWorker i w).isRunning = p.isRunning := rfl

@[simp] theorem setWorker_isDestroying (i : Fin 64) (w : WorkerThread τ α κ) :
    (p.setWorker i w).isDestroying = p.isDestroying := rfl

@[simp] theorem setPc_reqHash (i : Fin 64) (pc : WorkerPc τ α κ) :
    (p.setPc i pc).reqHash = p.reqHash := rfl

@[simp] theorem setPc_workers_self (i : Fin 64) (pc : WorkerPc τ α κ) :
    (p.setPc i pc).workers i = { p.workers i with pc := pc } := by simp [setPc]

theorem setPc_workers_ne {i j : Fin 64} (h : j ≠ i) (pc : WorkerPc τ α κ) :
    (p.setPc i pc).workers j = p.workers j := setWorker_workers_ne p h _

@[simp] theorem insertReqContext_workers (c : RequestContext τ κ) :
    (p.insertReqContext c).workers = p.workers := rfl

@[simp] theorem removeReqContext_workers (r : UInt32) :
    (p.removeReqContext r).workers = p.workers := rfl

@[simp] theorem insertReqContext_hist (c : RequestContext τ κ) :
    (p.insertReqContext c).hist = p.hist := rfl

@[simp] theorem removeReqContext_hist (r : UInt32) : (p.removeReqContext r).hist = p.hist := rfl

/-! ### The request table -/

variable {p} in
theorem ctxs_congr {q : Pool τ α κ} (h : q.reqHash = p.reqHash) (r : UInt32) : q.ctxs r = p.ctxs r := by
  simp only [ctxs, h]

theorem findReqContext_eq (r : UInt32) : p.findReqContext r = (p.ctxs r).head? := by
  rw [findReqContext, ctxs, List.head?_filter]

theorem requestId_of_mem_ctxs {r : UInt32} {c : RequestContext τ κ} (h : c ∈ p.ctxs r) :
    c.requestId = r := by
  simpa using (List.mem_filter.1 h).2

theorem setChain_ctxs (k : Fin reqHashSize) (l : List (RequestContext τ κ)) (r : UInt32) :
    (p.setChain k l).ctxs r =
      if hashReqId r = k then l.filter (fun c => c.requestId == r) else p.ctxs r := by
  simp only [ctxs, setChain, Function.update_apply]
  split <;> simp_all

theorem insertReqContext_ctxs (c : RequestContext τ κ) (r : UInt32) :
    (p.insertReqContext c).ctxs r = if c.requestId = r then c :: p.ctxs r else p.ctxs r := by
  rw [insertReqContext, setChain_ctxs]
  by_cases hr : c.requestId = r
  · subst hr; simp [ctxs]
  · by_cases hk : hashReqId r = hashReqId c.requestId
    · simp [ctxs, hk, hr]
    · simp [hk, hr]

theorem removeReqContext_ctxs (r r' : UInt32) :
    (p.removeReqContext r').ctxs r = if r = r' then (p.ctxs r).tail else p.ctxs r := by
  rw [removeReqContext, setChain_ctxs]
  by_cases hr : r = r'
  · subst hr
    simp only [ctxs, ↓reduceIte]
    induction p.reqHash (hashReqId r) with
    | nil => rfl
    | cons c l ih => by_cases hc : c.requestId = r <;> simp [hc, ih]
  · by_cases hk : hashReqId r = hashReqId r'
    · simp only [ctxs, hr, hk, ↓reduceIte]
      induction p.reqHash (hashReqId r') with
      | nil => rfl
      | cons c l ih =>
        by_cases hc : c.requestId = r'
        · have : c.requestId ≠ r := fun h => hr (h.symm.trans hc)
          simp [hc, Ne.symm hr]
        · by_cases hc' : c.requestId = r <;> simp_all
    · simp [hk, hr]

section
variable [DecidableEq τ]

theorem deref_eq (r : UInt32) (t : τ) : p.deref r t = (p.ctxs r).find? fun c => c.owner == t := by
  rw [deref, ctxs, List.find?_filter]
  congr 1
  funext c
  simp [pointsTo, Bool.decide_and, beq_eq_decide]

@[simp] theorem addPending_workers (r : UInt32) (t : τ) (d : Int32) :
    (p.addPending r t d).workers = p.workers := rfl

@[simp] theorem addPending_hist (r : UInt32) (t : τ) (d : Int32) :
    (p.addPending r t d).hist = p.hist := rfl

/-- The context `addPending` leaves of `c`. -/
def bumped (t : τ) (d : Int32) (c : RequestContext τ κ) : RequestContext τ κ :=
  if c.owner = t then { c with pendingCount := c.pendingCount + d } else c

@[simp] theorem bumped_owner (t : τ) (d : Int32) (c : RequestContext τ κ) :
    (bumped t d c).owner = c.owner := by
  unfold bumped; split <;> rfl

theorem addPending_ctxs (r r' : UInt32) (t : τ) (d : Int32) :
    (p.addPending r' t d).ctxs r = if r = r' then (p.ctxs r).map (bumped t d) else p.ctxs r := by
  rw [addPending, setChain_ctxs]
  set f : RequestContext τ κ → RequestContext τ κ := fun c =>
    if pointsTo r' t c then { c with pendingCount := c.pendingCount + d } else c with hf
  have hid : ((fun c : RequestContext τ κ => c.requestId == r) ∘ f) = fun c => c.requestId == r := by
    funext c
    simp only [hf, Function.comp]
    split <;> rfl
  by_cases hk : hashReqId r = hashReqId r'
  · rw [if_pos hk, List.filter_map, hid, ← hk]
    change List.map f (p.ctxs r) = _
    split
    · subst r'
      refine List.map_congr_left fun c hc => ?_
      simp [hf, bumped, pointsTo, p.requestId_of_mem_ctxs hc]
    · rename_i hr
      refine (List.map_congr_left fun c hc => ?_).trans (List.map_id _)
      simp [hf, pointsTo, p.requestId_of_mem_ctxs hc, hr]
  · rw [if_neg hk, if_neg fun h => hk (congrArg hashReqId h)]

theorem findReqContext_addPending (r : UInt32) (t : τ) (d : Int32) :
    (p.addPending r t d).findReqContext r = (p.findReqContext r).map (bumped t d) := by
  rw [findReqContext_eq, findReqContext_eq, addPending_ctxs, if_pos rfl, List.head?_map]

variable {p} in
theorem deref_of_find {r : UInt32} {c : RequestContext τ κ} (h : p.findReqContext r = some c) :
    p.deref r c.owner = some c := by
  rw [findReqContext_eq] at h
  rw [deref_eq]
  cases hc : p.ctxs r with
  | nil => simp [hc] at h
  | cons c' l => simp_all

variable {p} in
theorem deref_addPending {p₀ : Pool τ α κ} {r : UInt32} {c : RequestContext τ κ} (hf : p₀.findReqContext r = some c)
    (hr : p.reqHash = p₀.reqHash) (d : Int32) : (p.addPending r c.owner d).deref r c.owner = some (bumped c.owner d c) := by
  have hfind : (p.addPending r c.owner d).findReqContext r = some (bumped c.owner d c) := by
    rw [findReqContext_addPending, findReqContext, hr]
    exact congrArg _ hf
  have hd := deref_of_find hfind
  rwa [bumped_owner] at hd

end

/-! ### The queues -/

variable {p} in
theorem queued_congr {q : Pool τ α κ} {i : Fin 64} (h : (q.workers i).queue = (p.workers i).queue)
    (r : UInt32) : q.queued i r = p.queued i r := by
  simp only [queued, h]

theorem requestId_of_mem_queued {i : Fin 64} {r : UInt32} {task : ThreadPoolTask τ α κ}
    (h : task ∈ p.queued i r) : task.requestId = r := by
  simpa using (List.mem_filter.1 h).2

end Pool
end OsTransport
