import OsTransport.Lib.Linked
import OsTransport.Lib.Run
import OsTransport.ThreadPool

/-!
# The request table in memory

`req_hash` with its chains of contexts in a heap. `Chains t L` says that the chain of every bucket `k` is the
list `L k`, whose ids all hash to `k`. Over any run of insertions and removals the table is a map from ids to
contexts (`table_refines`), and its chains are the lists of `ThreadPool` (`Models`).
-/

namespace OsTransport
open Linked

structure ReqTable (A τ κ : Type) where
  heap : Heap A (RequestContext τ κ)
  reqHash : Fin reqHashSize → Option A

namespace ReqTable
variable {A τ κ : Type} [DecidableEq A]

/-- The loop of `find_req_context`, at most `fuel` turns; `none` also when freed memory is read. -/
def findLoop (heap : Heap A (RequestContext τ κ)) (r : UInt32) : Nat → Option A → Option (Option A)
  | 0, _ => none
  | _ + 1, none => some none
  | fuel + 1, some ctx =>
    match heap ctx with
    | none => none
    | some c => if c.val.requestId = r then some (some ctx) else findLoop heap r fuel c.next

/-- `find_req_context`. -/
def findReqContext (fuel : Nat) (t : ReqTable A τ κ) (r : UInt32) : Option (Option A) :=
  findLoop t.heap r fuel (t.reqHash (hashReqId r))

/-- `insert_req_context` of a context that was just allocated at `ctx`. -/
def insertReqContext (t : ReqTable A τ κ) (ctx : A) (c : RequestContext τ κ) : ReqTable A τ κ where
  heap := t.heap.alloc ctx ⟨c, t.reqHash (hashReqId c.requestId)⟩
  reqHash := Function.update t.reqHash (hashReqId c.requestId) (some ctx)

/-- `*p`, where `p` is the `next` field of a context, or bucket `k` when that is `none`. -/
def deref (t : ReqTable A τ κ) (k : Fin reqHashSize) : Option A → Option (Option A)
  | none => some (t.reqHash k)
  | some ctx => (t.heap ctx).map Cell.next

/-- `*p = n`. -/
def store (t : ReqTable A τ κ) (k : Fin reqHashSize) (p n : Option A) : ReqTable A τ κ where
  heap := (t.heap.link (t.reqHash k) p n).1
  reqHash := Function.update t.reqHash k (t.heap.link (t.reqHash k) p n).2

/-- The loop over bucket `k` in `remove_req_context` and in `update_context_after_cancel`. -/
def unlinkLoop (r : UInt32) (k : Fin reqHashSize) : Nat → ReqTable A τ κ → Option A → Option (ReqTable A τ κ)
  | 0, _, _ => none
  | fuel + 1, t, p =>
    match t.deref k p with
    | none => none
    | some none => some t
    | some (some ctx) =>
      match t.heap ctx with
      | none => none
      | some c =>
        if c.val.requestId = r then
          let t := t.store k p c.next
          some { t with heap := t.heap.free ctx }
        else unlinkLoop r k fuel t (some ctx)

/-- `remove_req_context`. -/
def removeReqContext (fuel : Nat) (t : ReqTable A τ κ) (r : UInt32) : Option (ReqTable A τ κ) :=
  unlinkLoop r (hashReqId r) fuel t none

/-- `ctx->pending_count += d`. -/
def addPending (t : ReqTable A τ κ) (ctx : A) (d : Int32) : ReqTable A τ κ :=
  { t with heap := t.heap.modify ctx fun c => { c with pendingCount := c.pendingCount + d } }

/-- `update_context_after_cancel`. -/
def updateContextAfterCancel (fuel : Nat) (t : ReqTable A τ κ) (ctx : A) (r removed : UInt32) :
    Option (ReqTable A τ κ) :=
  let t := t.addPending ctx (-removed.toInt32)
  match t.heap ctx with
  | none => none
  | some c => if c.val.pendingCount = 0 then unlinkLoop r (hashReqId r) fuel t none else some t

/-! ### The chains -/

/-- The chain of bucket `k` is `L k`, and every context is in the bucket of its id. -/
structure Chains (t : ReqTable A τ κ) (L : Fin reqHashSize → List (A × RequestContext τ κ)) : Prop where
  seg : ∀ k, Seg t.heap (t.reqHash k) (L k) none
  hashed : ∀ k, ∀ x ∈ L k, hashReqId x.2.requestId = k

namespace Chains
variable {t : ReqTable A τ κ} {L : Fin reqHashSize → List (A × RequestContext τ κ)} {r : UInt32}

omit [DecidableEq A] in
theorem heap_of_mem (h : t.Chains L) {k : Fin reqHashSize} {x : A × RequestContext τ κ} (hx : x ∈ L k) :
    ∃ n, t.heap x.1 = some ⟨x.2, n⟩ := by
  obtain ⟨l₁, l₂, hl⟩ := List.append_of_mem hx
  have hs := h.seg k
  rw [hl] at hs
  obtain ⟨m, -, hm⟩ := Seg.append.1 hs
  obtain ⟨-, n, hn, -⟩ := hm
  exact ⟨n, hn⟩

omit [DecidableEq A] in
theorem bucket_unique (h : t.Chains L) {k k' : Fin reqHashSize} {a : A} (ha : a ∈ addrs (L k))
    (ha' : a ∈ addrs (L k')) : k = k' := by
  obtain ⟨x, hx, rfl⟩ := List.mem_map.1 ha
  obtain ⟨y, hy, hxy⟩ := List.mem_map.1 ha'
  obtain ⟨n, hn⟩ := h.heap_of_mem hx
  obtain ⟨n', hn'⟩ := h.heap_of_mem hy
  rw [hxy, hn, Option.some.injEq, Cell.mk.injEq] at hn'
  rw [← h.hashed k x hx, ← h.hashed k' y hy, hn'.1]

omit [DecidableEq A] in
theorem find_spec {heap : Heap A (RequestContext τ κ)} {p : Option A} {l : List (A × RequestContext τ κ)}
    {fuel : Nat} (hs : Seg heap p l none) (hfuel : l.length < fuel) :
    findLoop heap r fuel p = some ((l.find? fun x => x.2.requestId == r).map Prod.fst) := by
  induction l generalizing p fuel with
  | nil =>
    obtain rfl : p = none := hs
    obtain ⟨n, rfl⟩ := Nat.exists_eq_add_of_lt hfuel
    rfl
  | cons x l ih =>
    obtain ⟨a, c⟩ := x
    obtain ⟨rfl, n, hn, hs⟩ := hs
    obtain ⟨m, rfl⟩ : ∃ m, fuel = m + 1 := Nat.exists_eq_add_one_of_ne_zero (by omega)
    simp only [findLoop, hn]
    by_cases hc : c.requestId = r
    · rw [if_pos hc, List.find?_cons_of_pos (by simpa using hc)]
      rfl
    · rw [if_neg hc, List.find?_cons_of_neg (by simpa using hc)]
      exact ih hs (Nat.lt_of_succ_lt_succ hfuel)

omit [DecidableEq A] in
theorem find (h : t.Chains L) {fuel : Nat} (hfuel : (L (hashReqId r)).length < fuel) : t.findReqContext fuel r =
    some (((L (hashReqId r)).find? fun x => x.2.requestId == r).map Prod.fst) :=
  find_spec (h.seg _) hfuel

theorem insert (h : t.Chains L) {ctx : A} (hctx : t.heap ctx = none) (c : RequestContext τ κ) :
    (t.insertReqContext ctx c).Chains
      (Function.update L (hashReqId c.requestId) ((ctx, c) :: L (hashReqId c.requestId))) := by
  have hframe : ∀ k, Seg (t.insertReqContext ctx c).heap (t.reqHash k) (L k) none := fun k =>
    (h.seg k).frame fun a ha =>
      t.heap.alloc_of_ne _ (ne_of_mem_of_not_mem ha ((h.seg k).notMem_of_none hctx))
  constructor
  · intro k
    rcases eq_or_ne k (hashReqId c.requestId) with rfl | hk
    · rw [Function.update_self]
      exact ⟨Function.update_self .., _, Function.update_self .., hframe _⟩
    · rw [Function.update_of_ne hk]
      show Seg _ (Function.update t.reqHash _ _ k) _ _
      rw [Function.update_of_ne hk]
      exact hframe k
  · intro k x hx
    rcases eq_or_ne k (hashReqId c.requestId) with rfl | hk
    · rw [Function.update_self, List.mem_cons] at hx
      rcases hx with rfl | hx
      · rfl
      · exact h.hashed _ x hx
    · rw [Function.update_of_ne hk] at hx
      exact h.hashed k x hx

/-- From the pointer behind `l₁` on, the loop takes out the first context of the id. -/
theorem unlink_spec {k : Fin reqHashSize} (l₁ : List (A × RequestContext τ κ))
    {l₂ : List (A × RequestContext τ κ)} {fuel : Nat} (h : t.Chains L) (hl : L k = l₁ ++ l₂)
    (hfuel : l₂.length < fuel) : ∃ t', unlinkLoop r k fuel t (lastAddr l₁) = some t' ∧
      t'.Chains (Function.update L k (l₁ ++ l₂.eraseP fun x => x.2.requestId == r)) := by
  have hs := h.seg k
  rw [hl] at hs
  obtain ⟨m, h₁, h₂⟩ := Seg.append.1 hs
  have hderef : t.deref k (lastAddr l₁) = some m := by
    rcases List.eq_nil_or_concat l₁ with rfl | ⟨l, ⟨b, c⟩, rfl⟩
    · exact congrArg some h₁
    · rw [List.concat_eq_append] at h₁ ⊢
      obtain ⟨m', -, hb⟩ := Seg.append.1 h₁
      obtain ⟨-, n, hn, rfl⟩ := hb
      rw [lastAddr_snoc]
      exact congrArg (Option.map Cell.next) hn
  induction l₂ generalizing l₁ fuel m with
  | nil =>
    obtain rfl : m = none := h₂
    obtain ⟨n, rfl⟩ := Nat.exists_eq_add_of_lt hfuel
    refine ⟨t, by simp only [unlinkLoop, hderef], ?_⟩
    rw [List.eraseP_nil, ← hl, Function.update_eq_self]
    exact h
  | cons x l₂ ih =>
    obtain ⟨a, c⟩ := x
    have hnode := h₂
    obtain ⟨rfl, n, hn, h₂⟩ := h₂
    obtain ⟨f, rfl⟩ : ∃ f, fuel = f + 1 := Nat.exists_eq_add_one_of_ne_zero (by omega)
    have hloop : unlinkLoop r k (f + 1) t (lastAddr l₁) = if c.requestId = r then
        some { t.store k (lastAddr l₁) n with heap := (t.store k (lastAddr l₁) n).heap.free a }
        else unlinkLoop r k f t (some a) := by
      simp only [unlinkLoop, hderef, hn]
    by_cases hc : c.requestId = r
    · rw [hloop, if_pos hc, List.eraseP_cons_of_pos (by simpa using hc)]
      obtain ⟨-, hseg⟩ := hs.unlink hn
      refine ⟨_, rfl, fun k' => ?_, fun k' x hx => ?_⟩
      · rcases eq_or_ne k' k with rfl | hk
        · rw [Function.update_self]
          show Seg _ (Function.update t.reqHash k' _ k') _ _
          rw [Function.update_self]
          exact hseg
        · rw [Function.update_of_ne hk]
          show Seg _ (Function.update t.reqHash k _ k') _ _
          rw [Function.update_of_ne hk]
          -- the other chains share no node with this one
          have hother : ∀ b ∈ addrs (L k'), b ∉ addrs (l₁ ++ (a, c) :: l₂) := fun b hb hb' =>
            hk (h.bucket_unique hb (hl ▸ hb'))
          refine (h.seg k').frame fun b hb => ?_
          have hb' := hother b hb
          rw [addrs, List.map_append, List.map_cons, List.mem_append, List.mem_cons, not_or, not_or] at hb'
          exact (Heap.free_of_ne _ hb'.2.1).trans (Seg.link_of_notMem hb'.1)
      · rcases eq_or_ne k' k with rfl | hk
        · rw [Function.update_self] at hx
          refine h.hashed k' x (hl ▸ ?_)
          rcases List.mem_append.1 hx with hx | hx
          · exact List.mem_append_left _ hx
          · exact List.mem_append_right _ (List.mem_cons_of_mem _ hx)
        · rw [Function.update_of_ne hk] at hx
          exact h.hashed k' x hx
    · rw [hloop, if_neg hc, List.eraseP_cons_of_neg (by simpa using hc)]
      have hl' : L k = (l₁ ++ [(a, c)]) ++ l₂ := by rw [hl, List.append_assoc]; rfl
      have hs' : Seg t.heap (t.reqHash k) ((l₁ ++ [(a, c)]) ++ l₂) none := hl' ▸ h.seg k
      have h₁' : Seg t.heap (t.reqHash k) (l₁ ++ [(a, c)]) n := Seg.append.2 ⟨some a, h₁, rfl, n, hn, rfl⟩
      have hderef' : t.deref k (lastAddr (l₁ ++ [(a, c)])) = some n := by
        rw [lastAddr_snoc]
        exact congrArg (Option.map Cell.next) hn
      obtain ⟨t', ht', hchains⟩ := ih _ hl' (Nat.lt_of_succ_lt_succ hfuel) hs' n h₁' h₂ hderef'
      rw [lastAddr_snoc] at ht'
      rw [List.append_assoc] at hchains
      exact ⟨t', ht', hchains⟩

theorem remove (h : t.Chains L) {fuel : Nat} (hfuel : (L (hashReqId r)).length < fuel) :
    ∃ t', t.removeReqContext fuel r = some t' ∧ t'.Chains (Function.update L (hashReqId r)
      ((L (hashReqId r)).eraseP fun x => x.2.requestId == r)) :=
  h.unlink_spec [] rfl hfuel

theorem addPending (h : t.Chains L) (ctx : A) (d : Int32) : (t.addPending ctx d).Chains fun k =>
    (L k).map fun x => if x.1 = ctx then (x.1, { x.2 with pendingCount := x.2.pendingCount + d }) else x := by
  constructor
  · exact fun k => (h.seg k).modify ctx fun c => { c with pendingCount := c.pendingCount + d }
  · intro k x hx
    obtain ⟨y, hy, rfl⟩ := List.mem_map.1 hx
    have hk := h.hashed k y hy
    split
    · exact hk
    · exact hk

end Chains

/-! ### The map -/

/-- An insertion, `remove_req_context`, or `update_context_after_cancel` through the pointer `ctx`. -/
inductive Op (A τ κ : Type)
  | insert (ctx : A) (c : RequestContext τ κ)
  | remove (r : UInt32)
  | afterCancel (ctx : A) (r removed : UInt32)

def apply (fuel : Nat) (t : ReqTable A τ κ) : Op A τ κ → Option (ReqTable A τ κ)
  | .insert ctx c => some (t.insertReqContext ctx c)
  | .remove r => t.removeReqContext fuel r
  | .afterCancel ctx r removed => t.updateContextAfterCancel fuel ctx r removed

/-- What the operations do to a map from request ids to contexts. -/
def applyMap (M : UInt32 → Option (A × RequestContext τ κ)) : Op A τ κ → UInt32 → Option (A × RequestContext τ κ)
  | .insert ctx c => Function.update M c.requestId (some (ctx, c))
  | .remove r => Function.update M r none
  | .afterCancel _ r removed => Function.update M r ((M r).bind fun (ctx, c) =>
      if c.pendingCount + -removed.toInt32 = 0 then none
      else some (ctx, { c with pendingCount := c.pendingCount + -removed.toInt32 }))

/-- `malloc` returns a free address and the id is not present; a cancel uses the pointer that was found. -/
def Admissible (t : ReqTable A τ κ) (M : UInt32 → Option (A × RequestContext τ κ)) : Op A τ κ → Prop
  | .insert ctx c => t.heap ctx = none ∧ M c.requestId = none
  | .remove _ => True
  | .afterCancel ctx r _ => ∃ c, M r = some (ctx, c)

/-- The chains are `L`, no id is in one twice, and a look-up in them is `M`. -/
structure Holds (t : ReqTable A τ κ) (L : Fin reqHashSize → List (A × RequestContext τ κ))
    (M : UInt32 → Option (A × RequestContext τ κ)) : Prop extends Chains t L where
  keys : ∀ k, ((L k).map fun x => x.2.requestId).Nodup
  lookup : ∀ r, (L (hashReqId r)).find? (fun x => x.2.requestId == r) = M r

section
variable {l : List (A × RequestContext τ κ)} {r r' : UInt32}

omit [DecidableEq A] in
theorem find?_eraseP_of_ne (h : r' ≠ r) :
    (l.eraseP fun x => x.2.requestId == r).find? (fun x => x.2.requestId == r') =
      l.find? fun x => x.2.requestId == r' := by
  induction l with
  | nil => rfl
  | cons x l ih =>
    by_cases hx : x.2.requestId = r
    · have hx' : (x.2.requestId == r') = false := by simpa [hx] using h.symm
      rw [List.eraseP_cons_of_pos (by simpa using hx), List.find?_cons, hx']
    · rw [List.eraseP_cons_of_neg (by simpa using hx), List.find?_cons, List.find?_cons, ih]

omit [DecidableEq A] in
theorem find?_eraseP_self (h : (l.map fun x => x.2.requestId).Nodup) :
    (l.eraseP fun x => x.2.requestId == r).find? (fun x => x.2.requestId == r) = none := by
  induction l with
  | nil => rfl
  | cons x l ih =>
    rw [List.map_cons, List.nodup_cons] at h
    by_cases hx : x.2.requestId = r
    · rw [List.eraseP_cons_of_pos (by simpa using hx), List.find?_eq_none]
      intro y hy hyr
      refine h.1 ?_
      rw [hx, ← beq_iff_eq.1 hyr]
      exact List.mem_map_of_mem hy
    · rw [List.eraseP_cons_of_neg (by simpa using hx), List.find?_cons_of_neg (by simpa using hx)]
      exact ih h.2

end

namespace Holds
variable {t : ReqTable A τ κ} {L : Fin reqHashSize → List (A × RequestContext τ κ)}
  {M : UInt32 → Option (A × RequestContext τ κ)} {r : UInt32}

omit [DecidableEq A] in
theorem mem_of_lookup (h : t.Holds L M) {x : A × RequestContext τ κ} (hx : M r = some x) :
    x ∈ L (hashReqId r) ∧ x.2.requestId = r := by
  have hfind := h.lookup r
  rw [hx] at hfind
  exact ⟨List.mem_of_find?_eq_some hfind, by simpa using List.find?_some hfind⟩

theorem insert (h : t.Holds L M) {ctx : A} (hctx : t.heap ctx = none) {c : RequestContext τ κ}
    (hc : M c.requestId = none) : (t.insertReqContext ctx c).Holds
      (Function.update L (hashReqId c.requestId) ((ctx, c) :: L (hashReqId c.requestId)))
      (Function.update M c.requestId (some (ctx, c))) := by
  have hnew : ∀ x ∈ L (hashReqId c.requestId), x.2.requestId ≠ c.requestId := by
    have hfind := (h.lookup c.requestId).trans hc
    simpa using hfind
  refine ⟨h.toChains.insert hctx c, fun k => ?_, fun r => ?_⟩
  · rcases eq_or_ne k (hashReqId c.requestId) with rfl | hk
    · rw [Function.update_self, List.map_cons, List.nodup_cons]
      refine ⟨fun hmem => ?_, h.keys _⟩
      obtain ⟨x, hx, hxc⟩ := List.mem_map.1 hmem
      exact hnew x hx hxc
    · rw [Function.update_of_ne hk]
      exact h.keys k
  · rcases eq_or_ne r c.requestId with rfl | hr
    · rw [Function.update_self, Function.update_self, List.find?_cons_of_pos (by simp)]
    · rw [Function.update_of_ne hr, ← h.lookup r]
      rcases eq_or_ne (hashReqId r) (hashReqId c.requestId) with hk | hk
      · rw [hk, Function.update_self, List.find?_cons_of_neg (by simpa using hr.symm)]
      · rw [Function.update_of_ne hk]

theorem remove (h : t.Holds L M) {fuel : Nat} (hfuel : (L (hashReqId r)).length < fuel) :
    ∃ t', t.removeReqContext fuel r = some t' ∧ t'.Holds (Function.update L (hashReqId r)
      ((L (hashReqId r)).eraseP fun x => x.2.requestId == r)) (Function.update M r none) := by
  obtain ⟨t', ht', hchains⟩ := h.toChains.remove (r := r) hfuel
  refine ⟨t', ht', hchains, fun k => ?_, fun r' => ?_⟩
  · rcases eq_or_ne k (hashReqId r) with rfl | hk
    · rw [Function.update_self]
      exact (h.keys _).sublist (List.eraseP_sublist.map _)
    · rw [Function.update_of_ne hk]
      exact h.keys k
  · rcases eq_or_ne r' r with rfl | hr
    · rw [Function.update_self, Function.update_self]
      exact find?_eraseP_self (h.keys _)
    · rw [Function.update_of_ne hr, ← h.lookup r']
      rcases eq_or_ne (hashReqId r') (hashReqId r) with hk | hk
      · rw [hk, Function.update_self]
        exact find?_eraseP_of_ne hr
      · rw [Function.update_of_ne hk]

theorem addPending (h : t.Holds L M) {ctx : A} {c : RequestContext τ κ} (hc : M r = some (ctx, c)) (d : Int32) :
    (t.addPending ctx d).Holds
      (fun k => (L k).map fun x => if x.1 = ctx then (x.1, { x.2 with pendingCount := x.2.pendingCount + d }) else x)
      (Function.update M r (some (ctx, { c with pendingCount := c.pendingCount + d }))) := by
  obtain ⟨hmem, hid⟩ := h.mem_of_lookup hc
  have hkey : ∀ x : A × RequestContext τ κ, (if x.1 = ctx then
      (x.1, { x.2 with pendingCount := x.2.pendingCount + d }) else x).2.requestId = x.2.requestId := fun x => by
    split <;> rfl
  refine ⟨h.toChains.addPending ctx d, fun k => ?_, fun r' => ?_⟩
  · rw [List.map_map]
    refine (List.map_congr_left fun x _ => ?_) ▸ h.keys k
    exact (hkey x).symm
  · rw [List.find?_map]
    have hcongr : ((fun x : A × RequestContext τ κ => x.2.requestId == r') ∘ fun x => if x.1 = ctx then
        (x.1, { x.2 with pendingCount := x.2.pendingCount + d }) else x) = fun x => x.2.requestId == r' := by
      funext x
      exact congrArg (· == r') (hkey x)
    rw [hcongr, h.lookup r']
    rcases eq_or_ne r' r with rfl | hr
    · rw [Function.update_self, hc]
      simp
    · rw [Function.update_of_ne hr]
      cases hx : M r' with
      | none => rfl
      | some x =>
        -- another id's context is at another address
        obtain ⟨hmem', hid'⟩ := h.mem_of_lookup hx
        have hne : x.1 ≠ ctx := by
          intro he
          obtain ⟨n, hn⟩ := h.heap_of_mem hmem
          obtain ⟨n', hn'⟩ := h.heap_of_mem hmem'
          rw [he, hn, Option.some.injEq, Cell.mk.injEq] at hn'
          exact hr (by rw [← hid', ← hn'.1, hid])
        simp [hne]

theorem apply (h : t.Holds L M) {fuel : Nat} (hfuel : ∀ k, (L k).length < fuel) {op : Op A τ κ}
    (hop : t.Admissible M op) : ∃ t' L', t.apply fuel op = some t' ∧ t'.Holds L' (applyMap M op) ∧
      ∀ k, (L' k).length ≤ (L k).length + 1 := by
  have hupdate : ∀ k l, l.length ≤ (L k).length + 1 → ∀ k', (Function.update L k l k').length ≤ (L k').length + 1 := by
    intro k l hl k'
    rcases eq_or_ne k' k with rfl | hk
    · rwa [Function.update_self]
    · rw [Function.update_of_ne hk]
      exact Nat.le_succ _
  cases op with
  | insert ctx c => exact ⟨_, _, rfl, h.insert hop.1 hop.2, hupdate _ _ le_rfl⟩
  | remove r =>
    obtain ⟨t', ht', h'⟩ := h.remove (r := r) (hfuel _)
    exact ⟨t', _, ht', h', hupdate _ _ (List.eraseP_sublist.length_le.trans (Nat.le_succ _))⟩
  | afterCancel ctx r removed =>
    obtain ⟨c, hc⟩ := hop
    obtain ⟨hmem, -⟩ := h.mem_of_lookup hc
    obtain ⟨n, hn⟩ := h.heap_of_mem hmem
    have h₁ := h.addPending hc (-removed.toInt32)
    have hnode : (t.addPending ctx (-removed.toInt32)).heap ctx =
        some ⟨{ c with pendingCount := c.pendingCount + -removed.toInt32 }, n⟩ :=
      t.heap.modify_self (fun c => { c with pendingCount := c.pendingCount + -removed.toInt32 }) hn
    by_cases hzero : c.pendingCount + -removed.toInt32 = 0
    · obtain ⟨t', ht', h'⟩ := h₁.remove (r := r) (by simpa using hfuel (hashReqId r) : _ < fuel)
      have hmap : applyMap M (.afterCancel ctx r removed) = Function.update M r none := by
        simp only [applyMap, hc, Option.bind_some, hzero, if_true]
      rw [Function.update_idem, ← hmap] at h'
      refine ⟨t', _, ?_, h', fun k => ?_⟩
      · simp only [ReqTable.apply, updateContextAfterCancel, hnode, hzero, if_true]
        exact ht'
      · rcases eq_or_ne k (hashReqId r) with rfl | hk
        · rw [Function.update_self]
          refine List.eraseP_sublist.length_le.trans ?_
          rw [List.length_map]
          exact Nat.le_succ _
        · rw [Function.update_of_ne hk, List.length_map]
          exact Nat.le_succ _
    · have hmap : applyMap M (.afterCancel ctx r removed) =
          Function.update M r (some (ctx, { c with pendingCount := c.pendingCount + -removed.toInt32 })) := by
        simp only [applyMap, hc, Option.bind_some, hzero, if_false]
      rw [← hmap] at h₁
      refine ⟨_, _, ?_, h₁, fun k => ?_⟩
      · simp only [ReqTable.apply, updateContextAfterCancel, hnode, hzero, if_false]
      · rw [List.length_map]
        exact Nat.le_succ _

end Holds

/-- The operations one after another. -/
def run (fuel : Nat) : ReqTable A τ κ → List (Op A τ κ) → Option (ReqTable A τ κ) :=
  Lts.exec (apply fuel)

/-- Every operation of the run is admissible where it is made. -/
def AdmissibleRun (fuel : Nat) :
    ReqTable A τ κ → (UInt32 → Option (A × RequestContext τ κ)) → List (Op A τ κ) → Prop
  | _, _, [] => True
  | t, M, op :: ops => t.Admissible M op ∧ ∀ t', t.apply fuel op = some t' → AdmissibleRun fuel t' (applyMap M op) ops

theorem Holds.run {t : ReqTable A τ κ} {L : Fin reqHashSize → List (A × RequestContext τ κ)}
    {M : UInt32 → Option (A × RequestContext τ κ)} {ops : List (Op A τ κ)} {fuel : Nat} (h : t.Holds L M)
    (hops : AdmissibleRun fuel t M ops) (hfuel : ∀ k, (L k).length + ops.length < fuel) : ∃ t' L',
      run fuel t ops = some t' ∧ t'.Holds L' (ops.foldl applyMap M) ∧ ∀ k, (L' k).length < fuel := by
  induction ops generalizing t L M with
  | nil => exact ⟨t, L, rfl, h, hfuel⟩
  | cons op ops ih =>
    simp only [List.length_cons] at hfuel
    have hlt : ∀ k, (L k).length < fuel := fun k => by
      have := hfuel k
      omega
    obtain ⟨t₁, L₁, ht₁, h₁, hlen⟩ := h.apply hlt hops.1
    obtain ⟨t', L', ht', h', hlen'⟩ := ih h₁ (hops.2 t₁ ht₁) fun k => by
      have := hfuel k
      have := hlen k
      omega
    exact ⟨t', L', Lts.exec_cons.2 ⟨t₁, ht₁, ht'⟩, h', hlen'⟩

/-- `thread_pool_init` clears the buckets. -/
def empty : ReqTable A τ κ := ⟨fun _ => none, fun _ => none⟩

omit [DecidableEq A] in
theorem empty_holds : (empty : ReqTable A τ κ).Holds (fun _ => []) fun _ => none :=
  ⟨⟨fun _ => rfl, fun _ _ hx => by cases hx⟩, fun _ => List.nodup_nil, fun _ => rfl⟩

/-- The id an operation is about. -/
def Op.requestId : Op A τ κ → UInt32
  | .insert _ c => c.requestId
  | .remove r => r
  | .afterCancel _ r _ => r

omit [DecidableEq A] in
theorem applyMap_of_ne (M : UInt32 → Option (A × RequestContext τ κ)) (op : Op A τ κ) {r : UInt32}
    (hr : r ≠ op.requestId) : applyMap M op r = M r := by
  cases op <;> exact Function.update_of_ne hr ..

theorem AdmissibleRun.append {fuel : Nat} {t t' : ReqTable A τ κ} {M : UInt32 → Option (A × RequestContext τ κ)}
    {ops ops' : List (Op A τ κ)} (h : AdmissibleRun fuel t M (ops ++ ops')) (ht : run fuel t ops = some t') :
    AdmissibleRun fuel t M ops ∧ AdmissibleRun fuel t' (ops.foldl applyMap M) ops' := by
  induction ops generalizing t M with
  | nil =>
    cases ht
    exact ⟨trivial, h⟩
  | cons op ops ih =>
    obtain ⟨t₁, ht₁, ht⟩ := Lts.exec_cons.1 ht
    refine ⟨⟨h.1, fun t₂ ht₂ => ?_⟩, (ih (h.2 t₁ ht₁) ht).2⟩
    cases ht₁.symm.trans ht₂
    exact (ih (h.2 t₁ ht₁) ht).1

theorem find_of_run {ops : List (Op A τ κ)} {t : ReqTable A τ κ} {fuel : Nat}
    (hops : AdmissibleRun fuel empty (fun _ => none) ops) (hfuel : ops.length < fuel)
    (ht : run fuel empty ops = some t) (r : UInt32) :
    t.findReqContext fuel r = some ((ops.foldl applyMap (fun _ => none) r).map Prod.fst) := by
  obtain ⟨t', L, ht', h, hlen⟩ := empty_holds.run hops (by simpa using hfuel)
  cases ht.symm.trans ht'
  rw [h.toChains.find (hlen _), h.lookup r]

/-- After any run of operations the chains are acyclic and disjoint, every context is in the chain of its id and
in no other, and `find_req_context` gives for every id what the map gives: the context inserted for it last, unless
it was removed. No operation of the run changed what is found for another id. -/
theorem table_refines {ops : List (Op A τ κ)} {fuel : Nat} (hops : AdmissibleRun fuel empty (fun _ => none) ops)
    (hfuel : ops.length < fuel) : ∃ t L, run fuel (empty : ReqTable A τ κ) ops = some t ∧ t.Chains L ∧
      (∀ k, (addrs (L k)).Nodup) ∧ (∀ k k', ∀ a ∈ addrs (L k), a ∈ addrs (L k') → k = k') ∧
      (∀ r x, ops.foldl applyMap (fun _ => none) r = some x → x ∈ L (hashReqId r) ∧ x.2.requestId = r) ∧
      (∀ r, t.findReqContext fuel r = some ((ops.foldl applyMap (fun _ => none) r).map Prod.fst)) ∧
      ∀ pre op post, ops = pre ++ op :: post → ∀ t₁ t₂, run fuel empty pre = some t₁ → t₁.apply fuel op = some t₂ →
        ∀ r ≠ op.requestId, t₂.findReqContext fuel r = t₁.findReqContext fuel r := by
  obtain ⟨t, L, ht, h, hlen⟩ := empty_holds.run hops (by simpa using hfuel)
  refine ⟨t, L, ht, h.toChains, fun k => (h.seg k).nodup, ?_, ?_, find_of_run hops hfuel ht, ?_⟩
  · exact fun k k' a ha ha' => h.bucket_unique ha ha'
  · exact fun r x hx => h.mem_of_lookup hx
  · rintro pre op post rfl t₁ t₂ ht₁ ht₂ r hr
    have hlen : (pre ++ [op]).length < fuel := by
      simp only [List.length_append, List.length_cons, List.length_nil] at hfuel ⊢
      omega
    have hrun : run fuel empty (pre ++ [op]) = some t₂ := Lts.exec_snoc.2 ⟨t₁, ht₁, ht₂⟩
    rw [List.append_cons] at hops
    have hsnoc := (hops.append hrun).1
    rw [find_of_run hsnoc hlen hrun, List.foldl_append, List.foldl_cons, List.foldl_nil, applyMap_of_ne _ _ hr,
      find_of_run (hsnoc.append ht₁).1 (by simp at hlen; omega) ht₁]

/-- Ids 1 and 1025 share a bucket. -/
def collidingOps : List (Op Nat Unit Unit) :=
  [.insert 0 ⟨1, 0, 1, none, ()⟩, .insert 1 ⟨1025, 0, 2, none, ()⟩, .remove 1, .afterCancel 1 1025 1]

theorem collidingOps_run : ∃ t, run 5 (empty : ReqTable Nat Unit Unit) collidingOps = some t ∧
    hashReqId 1 = hashReqId 1025 ∧ t.findReqContext 5 1 = some none ∧ t.findReqContext 5 1025 = some (some 1) := by
  have hops : AdmissibleRun 5 (empty : ReqTable Nat Unit Unit) (fun _ => none) collidingOps := by
    refine ⟨⟨rfl, rfl⟩, fun t₁ ht₁ => ?_⟩
    obtain rfl := Option.some.inj ht₁
    refine ⟨⟨rfl, rfl⟩, fun t₂ ht₂ => ?_⟩
    obtain rfl := Option.some.inj ht₂
    exact ⟨trivial, fun t₃ _ => ⟨⟨_, rfl⟩, fun _ _ => trivial⟩⟩
  obtain ⟨t, L, ht, -, -, -, -, hfind, -⟩ := table_refines hops (by decide)
  exact ⟨t, ht, by decide, (hfind 1).trans (by decide), (hfind 1025).trans (by decide)⟩

/-! ### The table of the pool -/

section
variable {α : Type} {t : ReqTable A τ κ} {p : Pool τ α κ} {fuel : Nat} {r : UInt32}

/-- The chains in memory are the lists of the pool model. -/
def Models (t : ReqTable A τ κ) (p : Pool τ α κ) : Prop :=
  ∃ L, t.Chains L ∧ ∀ k, p.reqHash k = (L k).map Prod.snd

omit [DecidableEq A] in
theorem Models.find (h : t.Models p) (hfuel : (p.reqHash (hashReqId r)).length < fuel) : ∃ ctx,
    t.findReqContext fuel r = some ctx ∧
      (ctx.bind fun a => (t.heap a).map Cell.val) = p.findReqContext r := by
  obtain ⟨L, h, hp⟩ := h
  rw [hp, List.length_map] at hfuel
  refine ⟨_, h.find hfuel, ?_⟩
  have hmap : p.findReqContext r = ((L (hashReqId r)).find? fun x => x.2.requestId == r).map Prod.snd := by
    rw [Pool.findReqContext, hp, List.find?_map]
    rfl
  rw [hmap]
  cases hx : (L (hashReqId r)).find? fun x => x.2.requestId == r with
  | none => rfl
  | some x =>
    obtain ⟨n, hn⟩ := h.heap_of_mem (List.mem_of_find?_eq_some hx)
    simp only [Option.map_some, Option.bind_some, hn]

theorem Models.insert (h : t.Models p) {ctx : A} (hctx : t.heap ctx = none) (c : RequestContext τ κ) :
    (t.insertReqContext ctx c).Models (p.insertReqContext c) := by
  obtain ⟨L, h, hp⟩ := h
  refine ⟨_, h.insert hctx c, fun k => ?_⟩
  rcases eq_or_ne k (hashReqId c.requestId) with rfl | hk
  · simp [Pool.insertReqContext, Pool.setChain, hp]
  · simp [Pool.insertReqContext, Pool.setChain, hp, Function.update_of_ne hk]

theorem Models.remove (h : t.Models p) (hfuel : (p.reqHash (hashReqId r)).length < fuel) : ∃ t',
    t.removeReqContext fuel r = some t' ∧ t'.Models (p.removeReqContext r) := by
  obtain ⟨L, h, hp⟩ := h
  rw [hp, List.length_map] at hfuel
  obtain ⟨t', ht', h'⟩ := h.remove hfuel
  refine ⟨t', ht', _, h', fun k => ?_⟩
  rcases eq_or_ne k (hashReqId r) with rfl | hk
  · simp only [Pool.removeReqContext, Pool.setChain, hp, Function.update_self, List.eraseP_map]
    rfl
  · simp [Pool.removeReqContext, Pool.setChain, hp, Function.update_of_ne hk]

end
end ReqTable
end OsTransport
