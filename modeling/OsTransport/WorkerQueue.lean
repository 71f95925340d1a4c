import OsTransport.Lib.Linked
import OsTransport.ThreadPool

/-!
# The task queue of a worker in memory

The four functions that change `queue_head`, `queue_tail` and `queue_size`, on nodes in a heap. `key` reads
the `request_id` of a task. `Holds q l` says that the queue is the list `l`; every run of operations keeps
some list and does to its tasks what the lists of `ThreadPool` do (`queue_refines`, `Models`).
-/

namespace OsTransport
open Linked

/-- The queue of a `WorkerThread`, with the heap its nodes are in. -/
structure TaskQueue (A V : Type) where
  heap : Heap A V
  queueHead : Option A
  queueTail : Option A
  queueSize : UInt32

namespace TaskQueue
variable {A V : Type} [DecidableEq A] (key : V → UInt32)

/-- `prev->next = n`, and `queue_head = n` when `prev` is NULL. -/
def link (q : TaskQueue A V) (prev n : Option A) : TaskQueue A V :=
  { q with heap := (q.heap.link q.queueHead prev n).1, queueHead := (q.heap.link q.queueHead prev n).2 }

/-- `worker_queue_push`; `node` is what `malloc` returns. -/
def workerQueuePush (q : TaskQueue A V) (node : Option A) (task : V) : Bool × TaskQueue A V :=
  match node with
  | none => (false, q)
  | some a =>
    let q := { q with heap := q.heap.alloc a ⟨task, none⟩ }
    let q := q.link q.queueTail (some a)
    (true, { q with queueTail := some a, queueSize := q.queueSize + 1 })

/-- `attach_nodes_to_worker`. -/
def attachNodesToWorker (q : TaskQueue A V) (head tail : Option A) (created : UInt32) : TaskQueue A V :=
  let q := q.link q.queueTail head
  { q with queueTail := tail, queueSize := q.queueSize + created }

/-- What both loops do with a node that matches: it is unlinked, `queue_tail` moved back, the node freed. -/
def unlinkNode (q : TaskQueue A V) (prev : Option A) (curr : A) (next : Option A) : TaskQueue A V :=
  let q := q.link prev next
  { q with
    heap := q.heap.free curr
    queueTail := if q.queueTail = some curr then prev else q.queueTail }

/-- The loop of `worker_queue_pop_by_req`, at most `fuel` turns; `none` also when freed memory is read. -/
def popLoop (r : UInt32) : Nat → TaskQueue A V → Option A → Option A → Option (Option V × TaskQueue A V)
  | 0, _, _, _ => none
  | _ + 1, q, _, none => some (none, q)
  | fuel + 1, q, prev, some curr =>
    match q.heap curr with
    | none => none
    | some node =>
      if key node.val = r then
        let q := q.unlinkNode prev curr node.next
        some (some node.val, { q with queueSize := q.queueSize - 1 })
      else popLoop r fuel q (some curr) node.next

/-- `worker_queue_pop_by_req`. -/
def workerQueuePopByReq (fuel : Nat) (q : TaskQueue A V) (r : UInt32) : Option (Option V × TaskQueue A V) :=
  popLoop key r fuel q none q.queueHead

/-- The loop of `cancel_in_worker_queue` and what follows it. -/
def cancelLoop (r : UInt32) : Nat → TaskQueue A V → Option A → Option A → UInt32 → Option (UInt32 × TaskQueue A V)
  | 0, _, _, _, _ => none
  | _ + 1, q, _, none, removed => some (removed, { q with queueSize := q.queueSize - removed })
  | fuel + 1, q, prev, some curr, removed =>
    match q.heap curr with
    | none => none
    | some node =>
      if key node.val = r then cancelLoop r fuel (q.unlinkNode prev curr node.next) prev node.next (removed + 1)
      else cancelLoop r fuel q (some curr) node.next removed

/-- `cancel_in_worker_queue`. -/
def cancelInWorkerQueue (fuel : Nat) (q : TaskQueue A V) (r : UInt32) : Option (UInt32 × TaskQueue A V) :=
  cancelLoop key r fuel q none q.queueHead 0

@[simp] theorem unlinkNode_heap (q : TaskQueue A V) (prev : Option A) (a : A) (n : Option A) :
    (q.unlinkNode prev a n).heap = (q.heap.link q.queueHead prev n).1.free a := rfl

@[simp] theorem unlinkNode_queueHead (q : TaskQueue A V) (prev : Option A) (a : A) (n : Option A) :
    (q.unlinkNode prev a n).queueHead = (q.heap.link q.queueHead prev n).2 := rfl

@[simp] theorem unlinkNode_queueTail (q : TaskQueue A V) (prev : Option A) (a : A) (n : Option A) :
    (q.unlinkNode prev a n).queueTail = if q.queueTail = some a then prev else q.queueTail := rfl

@[simp] theorem unlinkNode_queueSize (q : TaskQueue A V) (prev : Option A) (a : A) (n : Option A) :
    (q.unlinkNode prev a n).queueSize = q.queueSize := rfl

/-! ### The list -/

/-- The nodes `l` are linked from `queue_head`, and `queue_tail` is the last of them. -/
structure Shape (q : TaskQueue A V) (l : List (A × V)) : Prop where
  seg : Seg q.heap q.queueHead l none
  tail : q.queueTail = lastAddr l

structure Holds (q : TaskQueue A V) (l : List (A × V)) : Prop extends Shape q l where
  size : q.queueSize.toNat = l.length

variable {key} {q : TaskQueue A V} {l l₁ l₂ : List (A × V)} {r : UInt32}

omit [DecidableEq A] in
theorem Shape.acyclic (h : q.Shape l) : (addrs l).Nodup := h.seg.nodup

omit [DecidableEq A] in
theorem Shape.head_eq_none_iff (h : q.Shape l) : q.queueHead = none ↔ q.queueTail = none := by
  rw [h.tail, lastAddr_eq_none, h.seg.eq_none_iff]

theorem Shape.link (h : q.Shape l₁) {n : Option A} (h₂ : Seg q.heap n l₂ none)
    (hd : ∀ a ∈ addrs l₁, a ∉ addrs l₂) :
    Seg (q.link q.queueTail n).heap (q.link q.queueTail n).queueHead (l₁ ++ l₂) none := by
  unfold TaskQueue.link
  rw [h.tail]
  exact h.seg.link h.acyclic h₂ hd

theorem Holds.attach (h : q.Holds l₁) {n : Option A} (h₂ : Seg q.heap n l₂ none) (hne : l₂ ≠ [])
    (hd : ∀ a ∈ addrs l₁, a ∉ addrs l₂) (hlt : l₁.length + l₂.length < 2 ^ 32) :
    (q.attachNodesToWorker n (lastAddr l₂) (UInt32.ofNat l₂.length)).Holds (l₁ ++ l₂) := by
  refine ⟨⟨h.link h₂ hd, (lastAddr_append hne).symm⟩, ?_⟩
  have hlen : (UInt32.ofNat l₂.length).toNat = l₂.length := UInt32.toNat_ofNat_of_lt' (show l₂.length < 2 ^ 32 by omega)
  show (q.queueSize + UInt32.ofNat l₂.length).toNat = (l₁ ++ l₂).length
  rw [UInt32.toNat_add, hlen, h.size, List.length_append]
  exact Nat.mod_eq_of_lt hlt

theorem Holds.push (h : q.Holds l) {a : A} (ha : q.heap a = none) (task : V) (hlt : l.length + 1 < 2 ^ 32) :
    (q.workerQueuePush (some a) task).2.Holds (l ++ [(a, task)]) := by
  have hfresh : a ∉ addrs l := h.seg.notMem_of_none ha
  let q₁ : TaskQueue A V := { q with heap := q.heap.alloc a ⟨task, none⟩ }
  have h₁ : q₁.Holds l := by
    refine ⟨⟨h.seg.frame fun b hb => ?_, h.tail⟩, h.size⟩
    exact q.heap.alloc_of_ne _ (ne_of_mem_of_not_mem hb hfresh)
  have hnode : Seg q₁.heap (some a) [(a, task)] none := ⟨rfl, none, Function.update_self .., rfl⟩
  have hd : ∀ b ∈ addrs l, b ∉ addrs [(a, task)] := fun b hb hb' => by
    obtain rfl := List.mem_singleton.1 hb'
    exact hfresh hb
  exact h₁.attach hnode (by simp) hd hlt

theorem Shape.unlinkNode {a : A} {v : V} {node : Cell A V} (h : q.Shape (l₁ ++ (a, v) :: l₂))
    (hn : q.heap a = some node) : node.val = v ∧ (q.unlinkNode (lastAddr l₁) a node.next).Shape (l₁ ++ l₂) ∧
      (Seg q.heap node.next l₂ none → Seg (q.unlinkNode (lastAddr l₁) a node.next).heap node.next l₂ none) := by
  have hnodup := h.acyclic
  rw [addrs, List.map_append, List.map_cons, List.nodup_append, List.nodup_cons] at hnodup
  obtain ⟨-, ⟨ha₂, -⟩, hd⟩ := hnodup
  obtain ⟨hv, hseg⟩ := h.seg.unlink hn
  refine ⟨hv, ⟨?_, ?_⟩, fun hs => ?_⟩
  · rw [unlinkNode_heap, unlinkNode_queueHead]
    exact hseg
  · -- the tail moves back if and only if the node was the last one
    have htail : q.queueTail = lastAddr ((a, v) :: l₂) := h.tail.trans (lastAddr_append (by simp))
    rw [unlinkNode_queueTail]
    rcases eq_or_ne l₂ [] with rfl | hne
    · rw [if_pos (show q.queueTail = some a from htail), List.append_nil]
    · have hlast : q.queueTail = lastAddr l₂ := by
        rw [htail, ← List.singleton_append, lastAddr_append hne]
      have hne_a : q.queueTail ≠ some a := fun ha => ha₂ (mem_of_lastAddr (hlast.symm.trans ha))
      rw [if_neg hne_a, hlast, lastAddr_append hne]
  · rw [unlinkNode_heap]
    refine hs.frame fun b hb => ?_
    rw [Heap.free_of_ne _ (ne_of_mem_of_not_mem hb ha₂), Seg.link_of_notMem]
    exact fun hb₁ => hd b hb₁ b (List.mem_cons_of_mem _ hb) rfl

/-- From the node after `l₁` on, the loop takes out the first match. -/
theorem popLoop_spec (key : V → UInt32) (r : UInt32) (l₁ : List (A × V)) {fuel : Nat} {curr : Option A}
    (h : q.Shape (l₁ ++ l₂)) (hs : Seg q.heap curr l₂ none)
    (hfuel : l₂.length < fuel) : ∃ q', popLoop key r fuel q (lastAddr l₁) curr =
        some ((popFirst (fun x : A × V => key x.2 == r) l₂).map fun x => x.1.2, q') ∧
      match popFirst (fun x : A × V => key x.2 == r) l₂ with
      | none => q' = q
      | some (_, l') => q'.Shape (l₁ ++ l') ∧ q'.queueSize = q.queueSize - 1 := by
  induction l₂ generalizing l₁ fuel curr with
  | nil =>
    obtain rfl : curr = none := hs
    obtain ⟨n, rfl⟩ := Nat.exists_eq_add_of_lt hfuel
    exact ⟨q, rfl, rfl⟩
  | cons x l₂ ih =>
    obtain ⟨a, v⟩ := x
    obtain ⟨rfl, next, hnode, hs⟩ := hs
    obtain ⟨n, rfl⟩ : ∃ n, fuel = n + 1 := Nat.exists_eq_add_one_of_ne_zero (by omega)
    by_cases hkey : key v = r
    · obtain ⟨-, hshape, -⟩ := h.unlinkNode hnode
      refine ⟨{ q.unlinkNode (lastAddr l₁) a next with queueSize := q.queueSize - 1 }, ?_, ?_⟩
      · simp [popLoop, hnode, hkey, popFirst]
      · simp only [popFirst, hkey, beq_self_eq_true, if_true]
        exact ⟨⟨hshape.seg, hshape.tail⟩, trivial⟩
    · have hkey' : (key v == r) = false := beq_eq_false_iff_ne.2 hkey
      have h' : q.Shape ((l₁ ++ [(a, v)]) ++ l₂) := by rwa [List.append_assoc]
      obtain ⟨q', hq', hpop⟩ := ih _ h' hs (Nat.lt_of_succ_lt_succ hfuel)
      rw [lastAddr_snoc] at hq'
      refine ⟨q', ?_, ?_⟩
      · simp only [popLoop, hnode, hkey, if_false, hq', popFirst, hkey', Bool.false_eq_true, Option.map_map]
        rfl
      · simp only [popFirst, hkey', Bool.false_eq_true, if_false]
        cases hp : popFirst (fun x : A × V => key x.2 == r) l₂ with
        | none =>
          rw [hp] at hpop
          exact hpop
        | some y =>
          rw [hp] at hpop
          obtain ⟨hshape, hsize⟩ := hpop
          rw [List.append_assoc] at hshape
          exact ⟨hshape, hsize⟩

/-- From the node after `l₁` on, the loop takes out every match and counts it. -/
theorem cancelLoop_spec (key : V → UInt32) (r : UInt32) (l₁ : List (A × V)) (removed : UInt32) {fuel : Nat}
    {curr : Option A} (h : q.Shape (l₁ ++ l₂)) (hs : Seg q.heap curr l₂ none) (hfuel : l₂.length < fuel) :
    ∃ q', cancelLoop key r fuel q (lastAddr l₁) curr removed =
        some (removed + UInt32.ofNat (l₂.countP fun x => key x.2 == r), q') ∧
      q'.Shape (l₁ ++ l₂.filter fun x => !(key x.2 == r)) ∧
      q'.queueSize = q.queueSize - (removed + UInt32.ofNat (l₂.countP fun x => key x.2 == r)) := by
  induction l₂ generalizing q l₁ fuel curr removed with
  | nil =>
    obtain rfl : curr = none := hs
    obtain ⟨n, rfl⟩ := Nat.exists_eq_add_of_lt hfuel
    refine ⟨{ q with queueSize := q.queueSize - removed }, ?_, ?_, ?_⟩
    · simp [cancelLoop]
    · simpa using (⟨h.seg, h.tail⟩ : Shape { q with queueSize := q.queueSize - removed } (l₁ ++ []))
    · simp
  | cons x l₂ ih =>
    obtain ⟨a, v⟩ := x
    obtain ⟨rfl, next, hnode, hs⟩ := hs
    obtain ⟨n, rfl⟩ : ∃ n, fuel = n + 1 := Nat.exists_eq_add_one_of_ne_zero (by omega)
    have hlt : l₂.length < n := Nat.lt_of_succ_lt_succ hfuel
    by_cases hkey : key v = r
    · obtain ⟨-, hshape, hrest⟩ := h.unlinkNode hnode
      obtain ⟨q', hq', hshape', hsize⟩ := ih _ (removed + 1) hshape (hrest hs) hlt
      have hcount : removed + 1 + UInt32.ofNat (l₂.countP fun x => key x.2 == r) =
          removed + UInt32.ofNat (((a, v) :: l₂).countP fun x => key x.2 == r) := by
        rw [List.countP_cons_of_pos (by simpa using hkey), UInt32.ofNat_add, UInt32.add_assoc, UInt32.add_comm 1]
        rfl
      rw [hcount] at hq' hsize
      refine ⟨q', ?_, ?_, hsize⟩
      · simp only [cancelLoop, hnode, hkey, if_true, hq']
      · rw [List.filter_cons_of_neg (by simpa using hkey)]
        exact hshape'
    · have h' : q.Shape ((l₁ ++ [(a, v)]) ++ l₂) := by rwa [List.append_assoc]
      obtain ⟨q', hq', hshape, hsize⟩ := ih _ removed h' hs hlt
      rw [lastAddr_snoc] at hq'
      rw [List.countP_cons_of_neg (by simpa using hkey), List.filter_cons_of_pos (by simpa using hkey)]
      refine ⟨q', ?_, ?_, hsize⟩
      · simp only [cancelLoop, hnode, hkey, if_false, hq']
      · rwa [List.append_assoc] at hshape

theorem Holds.pop (key : V → UInt32) {fuel : Nat} (h : q.Holds l) (hfuel : l.length < fuel) (r : UInt32) :
    ∃ q', workerQueuePopByReq key fuel q r =
        some ((popFirst (fun x : A × V => key x.2 == r) l).map fun x => x.1.2, q') ∧
      match popFirst (fun x : A × V => key x.2 == r) l with
      | none => q' = q
      | some (_, l') => q'.Holds l' := by
  obtain ⟨q', hq', hpop⟩ := popLoop_spec key r [] h.toShape h.seg hfuel
  refine ⟨q', hq', ?_⟩
  cases hp : popFirst (fun x : A × V => key x.2 == r) l with
  | none =>
    rw [hp] at hpop
    exact hpop
  | some y =>
    obtain ⟨x, l'⟩ := y
    rw [hp] at hpop
    obtain ⟨hshape, hsize⟩ := hpop
    have hlen := popFirst_length hp
    have hone : (1 : UInt32) ≤ q.queueSize := by
      rw [UInt32.le_iff_toNat_le, h.size, hlen]
      exact Nat.succ_le_succ (Nat.zero_le _)
    refine ⟨hshape, ?_⟩
    rw [hsize, UInt32.toNat_sub_of_le _ _ hone, h.size, hlen]
    rfl

theorem Holds.cancel (key : V → UInt32) {fuel : Nat} (h : q.Holds l) (hfuel : l.length < fuel) (r : UInt32) :
    ∃ q', cancelInWorkerQueue key fuel q r = some (UInt32.ofNat (l.countP fun x => key x.2 == r), q') ∧
      q'.Holds (l.filter fun x => !(key x.2 == r)) := by
  obtain ⟨q', hq', hshape, hsize⟩ :=
    cancelLoop_spec key r [] 0 h.toShape h.seg hfuel
  rw [UInt32.zero_add] at hq' hsize
  have hlt : l.length < 2 ^ 32 := h.size ▸ q.queueSize.toNat_lt
  have hle : l.countP (fun x => key x.2 == r) ≤ l.length := List.countP_le_length
  have hcount : (UInt32.ofNat (l.countP fun x => key x.2 == r)).toNat = l.countP fun x => key x.2 == r :=
    UInt32.toNat_ofNat_of_lt' (Nat.lt_of_le_of_lt hle hlt)
  have hle' : UInt32.ofNat (l.countP fun x => key x.2 == r) ≤ q.queueSize := by
    rw [UInt32.le_iff_toNat_le, hcount, h.size]
    exact hle
  have hsplit := List.length_eq_countP_add_countP (fun x : A × V => key x.2 == r) (l := l)
  refine ⟨q', hq', hshape, ?_⟩
  rw [hsize, UInt32.toNat_sub_of_le _ _ hle', hcount, h.size, ← List.countP_eq_length_filter]
  have hnot : l.countP (fun x => decide ¬(key x.2 == r) = true) = l.countP fun x => !(key x.2 == r) :=
    List.countP_congr fun x _ => by simp
  omega

/-! ### Runs -/

/-- An operation on the queue, or what the rest of the program does to the heap in between. -/
inductive Op (A V : Type)
  | push (node : Option A) (task : V)
  /-- `chain` is linked and not part of the queue yet -/
  | attach (chain : List (A × V))
  | pop (r : UInt32)
  | cancel (r : UInt32)
  | elsewhere (heap : Heap A V)

inductive Result (V : Type)
  | unit
  | pushed (ok : Bool)
  | popped (task : Option V)
  | removed (n : Nat)
deriving DecidableEq

variable (key) in
/-- One operation. No queue that `queue_size` can count makes a loop turn more than 2^32 times. -/
def apply (q : TaskQueue A V) : Op A V → Option (TaskQueue A V × Result V)
  | .push node task => some ((q.workerQueuePush node task).2, .pushed (q.workerQueuePush node task).1)
  | .attach chain =>
    some (q.attachNodesToWorker (chain.head?.map Prod.fst) (lastAddr chain) (UInt32.ofNat chain.length), .unit)
  | .pop r => (workerQueuePopByReq key (2 ^ 32) q r).map fun (task, q') => (q', .popped task)
  | .cancel r => (cancelInWorkerQueue key (2 ^ 32) q r).map fun (n, q') => (q', .removed n.toNat)
  | .elsewhere heap => some ({ q with heap := heap }, .unit)

/-- The operations one after another, with what they return. -/
def run {σ ω ε : Type} (f : σ → ω → Option (σ × ε)) : σ → List ω → Option (σ × List ε)
  | s, [] => some (s, [])
  | s, op :: ops =>
    match f s op with
    | none => none
    | some (s', e) => (run f s' ops).map fun (t, es) => (t, e :: es)

variable (key) in
/-- What an operation does to the list of tasks. -/
def applyList (l : List V) : Op A V → Option (List V × Result V)
  | .push none _ => some (l, .pushed false)
  | .push (some _) task => some (l ++ [task], .pushed true)
  | .attach chain => some (l ++ chain.map Prod.snd, .unit)
  | .pop r =>
    match popFirst (fun task => key task == r) l with
    | none => some (l, .popped none)
    | some (task, l') => some (l', .popped (some task))
  | .cancel r => some (l.filter fun task => !(key task == r), .removed (l.countP fun task => key task == r))
  | .elsewhere _ => some (l, .unit)

/-- `malloc` returns a free address, a chain is linked and apart from the queue, the rest of the program leaves
the nodes of the queue alone, and the tasks can be counted. -/
def Admissible (q : TaskQueue A V) (l : List (A × V)) : Op A V → Prop
  | .push node _ => ∀ a, node = some a → q.heap a = none ∧ l.length + 1 < 2 ^ 32
  | .attach chain => chain ≠ [] ∧ Seg q.heap (chain.head?.map Prod.fst) chain none ∧
      (∀ a ∈ addrs l, a ∉ addrs chain) ∧ l.length + chain.length < 2 ^ 32
  | .pop _ | .cancel _ => True
  | .elsewhere heap => ∀ a ∈ addrs l, heap a = q.heap a

/-- Every operation of the run is admissible where it is made. -/
def AdmissibleRun (key : V → UInt32) : TaskQueue A V → List (Op A V) → Prop
  | _, [] => True
  | q, op :: ops => (∀ l, q.Holds l → Admissible q l op) ∧ ∀ q' e, apply key q op = some (q', e) → AdmissibleRun key q' ops

theorem Holds.apply (h : q.Holds l) {op : Op A V} (hop : Admissible q l op) : ∃ q' l' e,
    apply key q op = some (q', e) ∧ q'.Holds l' ∧ applyList key (l.map Prod.snd) op = some (l'.map Prod.snd, e) := by
  have hlt : l.length < 2 ^ 32 := h.size ▸ q.queueSize.toNat_lt
  cases op with
  | push node task =>
    cases node with
    | none => exact ⟨q, l, _, rfl, h, rfl⟩
    | some a =>
      obtain ⟨ha, hlen⟩ := hop a rfl
      exact ⟨_, l ++ [(a, task)], _, rfl, h.push ha task hlen, by simp [applyList]; rfl⟩
  | attach chain =>
    obtain ⟨hne, hs, hd, hlen⟩ := hop
    exact ⟨_, l ++ chain, _, rfl, h.attach hs hne hd hlen, by simp [applyList]⟩
  | pop r =>
    obtain ⟨q', hq', hpop⟩ := h.pop key hlt r
    have hmap := popFirst_map (fun task => key task == r) (Prod.snd : A × V → V) l
    cases hp : popFirst (fun x : A × V => key x.2 == r) l with
    | none =>
      rw [hp] at hq' hpop hmap
      refine ⟨q', l, .popped none, by simp only [TaskQueue.apply, hq', Option.map_some, Option.map_none], hpop ▸ h, ?_⟩
      simp only [applyList, hmap, Option.map_none]
    | some y =>
      rw [hp] at hq' hpop hmap
      refine ⟨q', y.2, .popped (some y.1.2), by simp only [TaskQueue.apply, hq', Option.map_some], hpop, ?_⟩
      simp only [applyList, hmap, Option.map_some]
  | cancel r =>
    obtain ⟨q', hq', hcancel⟩ := h.cancel key hlt r
    have hle : l.countP (fun x => key x.2 == r) ≤ l.length := List.countP_le_length
    have hcount : (UInt32.ofNat (l.countP fun x => key x.2 == r)).toNat = l.countP fun x => key x.2 == r :=
      UInt32.toNat_ofNat_of_lt' (Nat.lt_of_le_of_lt hle hlt)
    refine ⟨q', _, .removed _, by simp only [TaskQueue.apply, hq', Option.map_some]; rfl, hcancel, ?_⟩
    simp only [applyList, hcount, List.countP_map, List.filter_map]
    rfl
  | elsewhere heap =>
    exact ⟨_, l, _, rfl, ⟨⟨h.seg.frame hop, h.tail⟩, h.size⟩, rfl⟩

/-- Over any run of operations the queue stays an acyclic list with its head, tail and size, and the operations
do to the tasks, and return, what they do on the list. -/
theorem queue_refines {ops : List (Op A V)} (h : q.Holds l) (hops : AdmissibleRun key q ops) : ∃ q' l' es,
    run (apply key) q ops = some (q', es) ∧ q'.Holds l' ∧ (addrs l').Nodup ∧
      (q'.queueHead = none ↔ q'.queueTail = none) ∧
      run (applyList key) (l.map Prod.snd) ops = some (l'.map Prod.snd, es) := by
  induction ops generalizing q l with
  | nil => exact ⟨q, l, [], rfl, h, h.acyclic, h.head_eq_none_iff, rfl⟩
  | cons op ops ih =>
    obtain ⟨q₁, l₁, e, hq₁, h₁, hl₁⟩ := h.apply (hops.1 l h)
    obtain ⟨q', l', es, hq', h', hacyclic, hnull, hl'⟩ := ih h₁ (hops.2 q₁ e hq₁)
    refine ⟨q', l', e :: es, ?_, h', hacyclic, hnull, ?_⟩
    · simp only [run, hq₁, hq', Option.map_some]
    · simp only [run, hl₁, hl', Option.map_some]

theorem AdmissibleRun.cons (h : q.Holds l) {op : Op A V} {ops : List (Op A V)} (hop : Admissible q l op)
    (hrest : ∀ q' e, TaskQueue.apply key q op = some (q', e) → AdmissibleRun key q' ops) :
    AdmissibleRun key q (op :: ops) :=
  ⟨fun _ h' => h.seg.unique h'.seg ▸ hop, hrest⟩

/-- Two pushes, a pop of the second task and a cancel of the first. -/
def fourOps : List (Op Nat UInt32) := [.push (some 0) 5, .push (some 1) 7, .pop 7, .cancel 5]

theorem fourOps_run : ∃ q', run (apply id) ⟨fun _ => none, none, none, 0⟩ fourOps =
      some (q', [.pushed true, .pushed true, .popped (some 7), .removed 1]) ∧ q'.Holds [] := by
  have h₀ : (⟨fun _ => none, none, none, 0⟩ : TaskQueue Nat UInt32).Holds [] := ⟨⟨rfl, rfl⟩, rfl⟩
  have hops : AdmissibleRun id ⟨fun _ => none, none, none, 0⟩ fourOps := by
    refine .cons h₀ (fun a ha => ⟨rfl, by decide⟩) fun q₁ e₁ he₁ => ?_
    obtain ⟨rfl, rfl⟩ := Prod.mk.inj (Option.some.inj he₁)
    have h₁ := h₀.push (a := 0) rfl 5 (by decide)
    refine .cons h₁ (fun a ha => ⟨by cases ha; rfl, by decide⟩) fun q₂ e₂ he₂ => ?_
    obtain ⟨rfl, rfl⟩ := Prod.mk.inj (Option.some.inj he₂)
    exact ⟨fun _ _ => trivial, fun _ _ _ => ⟨fun _ _ => trivial, fun _ _ _ => trivial⟩⟩
  obtain ⟨q', l', es, hq', h', -, -, hl'⟩ := queue_refines h₀ hops
  have hspec : run (applyList (A := Nat) id) [] fourOps =
      some ([], [.pushed true, .pushed true, .popped (some 7), .removed 1]) := by decide
  obtain ⟨hnil, rfl⟩ := Prod.mk.inj (Option.some.inj (hl'.symm.trans hspec))
  obtain rfl := List.map_eq_nil_iff.1 hnil
  exact ⟨q', hq', h'⟩

/-! ### The worker of the pool -/

section
variable {τ α κ : Type} {w : WorkerThread τ α κ} {q : TaskQueue A (ThreadPoolTask τ α κ)}

/-- The queue in memory is the list of the pool model. -/
def Models (q : TaskQueue A (ThreadPoolTask τ α κ)) (w : WorkerThread τ α κ) : Prop :=
  ∃ l, q.Holds l ∧ w.queue = l.map Prod.snd ∧ w.queueSize = q.queueSize

theorem Models.push (h : q.Models w) {a : A} (ha : q.heap a = none) (task : ThreadPoolTask τ α κ)
    (hlt : w.queue.length + 1 < 2 ^ 32) : (q.workerQueuePush (some a) task).2.Models (w.workerQueuePush task) := by
  obtain ⟨l, h, hw, hsize⟩ := h
  rw [hw, List.length_map] at hlt
  refine ⟨l ++ [(a, task)], h.push ha task hlt, ?_, ?_⟩
  · simp [WorkerThread.workerQueuePush, hw]
  · exact congrArg (· + 1) hsize

theorem Models.attach (h : q.Models w) {n : Option A} {chain : List (A × ThreadPoolTask τ α κ)}
    (hs : Seg q.heap n chain none) (hne : chain ≠ [])
    (hd : ∀ a ∈ addrs chain, ∀ l, Seg q.heap q.queueHead l none → a ∉ addrs l)
    (hlt : w.queue.length + chain.length < 2 ^ 32) :
    (q.attachNodesToWorker n (lastAddr chain) (UInt32.ofNat chain.length)).Models
      (w.attachNodesToWorker (chain.map Prod.snd) (UInt32.ofNat chain.length)) := by
  obtain ⟨l, h, hw, hsize⟩ := h
  rw [hw, List.length_map] at hlt
  refine ⟨l ++ chain, h.attach hs hne (fun a ha ha' => hd a ha' l h.seg ha) hlt, ?_, ?_⟩
  · simp [WorkerThread.attachNodesToWorker, hw]
  · exact congrArg (· + UInt32.ofNat chain.length) hsize

theorem Models.pop (h : q.Models w) (r : UInt32) : ∃ q',
    workerQueuePopByReq ThreadPoolTask.requestId (2 ^ 32) q r = some ((w.workerQueuePopByReq r).map Prod.fst, q') ∧
      q'.Models (((w.workerQueuePopByReq r).map Prod.snd).getD w) := by
  obtain ⟨l, h, hw, hsize⟩ := h
  have hlt : l.length < 2 ^ 32 := h.size ▸ q.queueSize.toNat_lt
  have hmap := popFirst_map (fun task => task.requestId == r) (Prod.snd : A × ThreadPoolTask τ α κ → _) l
  rw [← hw] at hmap
  obtain ⟨q', hq', hpop⟩ := popLoop_spec ThreadPoolTask.requestId r [] h.toShape h.seg hlt
  obtain ⟨q'', hq'', hpop'⟩ := h.pop ThreadPoolTask.requestId hlt r
  obtain rfl := (Prod.mk.inj (Option.some.inj (hq'.symm.trans hq''))).2
  refine ⟨q', ?_, ?_⟩
  · rw [hq'', WorkerThread.workerQueuePopByReq, hmap, Option.map_map, Option.map_map]
    rfl
  · rw [WorkerThread.workerQueuePopByReq, hmap]
    cases hp : popFirst (fun x : A × ThreadPoolTask τ α κ => x.2.requestId == r) l with
    | none =>
      rw [hp] at hpop
      obtain rfl : q' = q := hpop
      exact ⟨l, h, hw, hsize⟩
    | some y =>
      rw [hp] at hpop hpop'
      exact ⟨y.2, hpop', rfl, (congrArg (· - 1) hsize).trans hpop.2.symm⟩

theorem Models.cancel (h : q.Models w) (r : UInt32) : ∃ q',
    cancelInWorkerQueue ThreadPoolTask.requestId (2 ^ 32) q r =
        some (UInt32.ofNat (w.cancelInWorkerQueue r).1.length, q') ∧ q'.Models (w.cancelInWorkerQueue r).2 := by
  obtain ⟨l, h, hw, hsize⟩ := h
  have hlt : l.length < 2 ^ 32 := h.size ▸ q.queueSize.toNat_lt
  obtain ⟨q', hq', hcancel⟩ := h.cancel ThreadPoolTask.requestId hlt r
  obtain ⟨q'', hq'', -, hsize'⟩ :=
    cancelLoop_spec ThreadPoolTask.requestId r [] 0 h.toShape h.seg hlt
  rw [UInt32.zero_add] at hq'' hsize'
  obtain rfl := (Prod.mk.inj (Option.some.inj (hq'.symm.trans hq''))).2
  have hcount : (w.queue.filter fun task => task.requestId == r).length =
      l.countP fun x => x.2.requestId == r := by
    rw [hw, ← List.countP_eq_length_filter, List.countP_map]
    rfl
  refine ⟨q', ?_, _, hcancel, ?_, ?_⟩
  · rw [hq', WorkerThread.cancelInWorkerQueue, hcount]
  · simp only [WorkerThread.cancelInWorkerQueue, hw, List.filter_map]
    rfl
  · simp only [WorkerThread.cancelInWorkerQueue, hcount, hsize, hsize']

end
end TaskQueue
end OsTransport
