import Mathlib

/-!
# Linked lists in a heap

A heap maps the allocated addresses to list nodes. `Seg h p l q` says that the nodes `l` are reached from
the pointer `p` one after another, and the last one points to `q`; with `q` the null pointer the list is
acyclic (`Seg.nodup`). Lists are changed by storing one pointer, in a node or in the list head: `link`.
-/

namespace Linked

structure Cell (A V : Type*) where
  val : V
  next : Option A
deriving DecidableEq

/-- The allocated nodes. -/
abbrev Heap (A V : Type*) := A → Option (Cell A V)

variable {A V : Type*}

namespace Heap
variable [DecidableEq A] (h : Heap A V)

def alloc (a : A) (c : Cell A V) : Heap A V := Function.update h a (some c)

def free (a : A) : Heap A V := Function.update h a none

/-- `a->next = n`. -/
def setNext (a : A) (n : Option A) : Heap A V := Function.update h a ((h a).map fun c => { c with next := n })

theorem alloc_of_ne {a b : A} (c : Cell A V) (hb : b ≠ a) : h.alloc a c b = h b := Function.update_of_ne hb ..

theorem free_of_ne {a b : A} (hb : b ≠ a) : h.free a b = h b := Function.update_of_ne hb ..

theorem setNext_of_ne {a b : A} (n : Option A) (hb : b ≠ a) : h.setNext a n b = h b := Function.update_of_ne hb ..

theorem setNext_self {a : A} {c : Cell A V} (n : Option A) (hc : h a = some c) :
    h.setNext a n a = some { c with next := n } := by
  rw [setNext, Function.update_self, hc]
  rfl

/-- Changes the value of a node. -/
def modify (a : A) (f : V → V) : Heap A V := Function.update h a ((h a).map fun c => { c with val := f c.val })

theorem modify_self {a : A} {c : Cell A V} (f : V → V) (hc : h a = some c) :
    h.modify a f a = some { c with val := f c.val } := by
  rw [modify, Function.update_self, hc]
  rfl

/-- Stores `n` in the node `prev`, or in the list head when there is none before. -/
def link (head prev n : Option A) : Heap A V × Option A :=
  match prev with
  | none => (h, n)
  | some b => (h.setNext b n, head)

end Heap

/-- From `p` the nodes `l`, given by address and value, are reached in order, and then `q`. -/
def Seg (h : Heap A V) : Option A → List (A × V) → Option A → Prop
  | p, [], q => p = q
  | p, (a, v) :: l, q => p = some a ∧ ∃ n, h a = some ⟨v, n⟩ ∧ Seg h n l q

def addrs (l : List (A × V)) : List A := l.map Prod.fst

/-- The address of the last node. -/
def lastAddr (l : List (A × V)) : Option A := l.getLast?.map Prod.fst

@[simp] theorem lastAddr_nil : lastAddr ([] : List (A × V)) = none := rfl

@[simp] theorem lastAddr_snoc (l : List (A × V)) (x : A × V) : lastAddr (l ++ [x]) = some x.1 := by
  simp [lastAddr]

theorem lastAddr_append {l l' : List (A × V)} (hl : l' ≠ []) : lastAddr (l ++ l') = lastAddr l' := by
  rw [lastAddr, lastAddr, List.getLast?_append_of_ne_nil l hl]

theorem lastAddr_eq_none {l : List (A × V)} : lastAddr l = none ↔ l = [] := by
  rw [lastAddr, Option.map_eq_none_iff, List.getLast?_eq_none_iff]

theorem mem_of_lastAddr {l : List (A × V)} {a : A} (ha : lastAddr l = some a) : a ∈ addrs l := by
  obtain ⟨x, hx, rfl⟩ := Option.map_eq_some_iff.1 ha
  exact List.mem_map_of_mem (List.mem_of_getLast? hx)

namespace Seg
variable {h h' : Heap A V} {p q m : Option A} {l l' : List (A × V)}

theorem append : Seg h p (l ++ l') q ↔ ∃ m, Seg h p l m ∧ Seg h m l' q := by
  induction l generalizing p with
  | nil => simp [Seg]
  | cons x l ih =>
    obtain ⟨a, v⟩ := x
    simp only [List.cons_append, Seg, ih]
    constructor
    · rintro ⟨hp, n, hn, m, hm, hq⟩
      exact ⟨m, ⟨hp, n, hn, hm⟩, hq⟩
    · rintro ⟨m, ⟨hp, n, hn, hm⟩, hq⟩
      exact ⟨hp, n, hn, m, hm, hq⟩

/-- Only the nodes of the list matter. -/
theorem frame (hs : Seg h p l q) (hh : ∀ a ∈ addrs l, h' a = h a) : Seg h' p l q := by
  induction l generalizing p with
  | nil => exact hs
  | cons x l ih =>
    obtain ⟨a, v⟩ := x
    obtain ⟨hp, n, hn, hs⟩ := hs
    refine ⟨hp, n, ?_, ih hs fun b hb => hh b (List.mem_cons_of_mem _ hb)⟩
    rw [hh a (List.mem_cons_self ..), hn]

/-- A pointer is the start of at most one null-terminated list. -/
theorem unique (hs : Seg h p l none) (hs' : Seg h p l' none) : l = l' := by
  induction l generalizing p l' with
  | nil =>
    obtain rfl : p = none := hs
    cases l' with
    | nil => rfl
    | cons x l' => cases hs'.1
  | cons x l ih =>
    obtain ⟨a, v⟩ := x
    obtain ⟨rfl, n, hn, hs⟩ := hs
    cases l' with
    | nil => cases hs'
    | cons y l' =>
      obtain ⟨b, w⟩ := y
      obtain ⟨hp, n', hn', hs'⟩ := hs'
      obtain rfl := Option.some.inj hp
      rw [hn, Option.some.injEq, Cell.mk.injEq] at hn'
      obtain ⟨rfl, rfl⟩ := hn'
      rw [ih hs hs']

/-- A null-terminated list has no cycle. -/
theorem nodup (hs : Seg h p l none) : (addrs l).Nodup := by
  induction l generalizing p with
  | nil => exact List.nodup_nil
  | cons x l ih =>
    have hall := hs
    obtain ⟨a, v⟩ := x
    obtain ⟨rfl, n, hn, hs⟩ := hs
    refine List.nodup_cons.2 ⟨fun ha => ?_, ih hs⟩
    obtain ⟨⟨b, w⟩, hb, rfl⟩ := List.mem_map.1 ha
    obtain ⟨l₁, l₂, rfl⟩ := List.append_of_mem hb
    -- the list from the second visit of the address is the whole list again
    obtain ⟨m, -, hm⟩ := append.1 hs
    obtain rfl : m = some b := hm.1
    have hlen := congrArg List.length (unique hall hm)
    simp only [List.length_cons, List.length_append] at hlen
    omega

theorem some_of_mem (hs : Seg h p l q) {a : A} (ha : a ∈ addrs l) : ∃ c, h a = some c := by
  induction l generalizing p with
  | nil => cases ha
  | cons x l ih =>
    obtain ⟨b, v⟩ := x
    obtain ⟨-, n, hn, hs⟩ := hs
    rcases List.mem_cons.1 ha with rfl | ha
    · exact ⟨_, hn⟩
    · exact ih hs ha

/-- An address that is not allocated is not in the list. -/
theorem notMem_of_none (hs : Seg h p l q) {a : A} (ha : h a = none) : a ∉ addrs l := by
  intro hmem
  obtain ⟨c, hc⟩ := hs.some_of_mem hmem
  rw [ha] at hc
  cases hc

theorem eq_none_iff (hs : Seg h p l none) : p = none ↔ l = [] := by
  cases l with
  | nil => exact iff_of_true hs rfl
  | cons x l =>
    obtain ⟨rfl, -⟩ := hs
    simp

variable [DecidableEq A]

/-- Storing `n` behind the nodes `l₁` makes the list from `n` their continuation. -/
theorem link {l₁ l₂ : List (A × V)} {n : Option A} (h₁ : Seg h p l₁ m) (hn : (addrs l₁).Nodup) (h₂ : Seg h n l₂ none)
    (hd : ∀ a ∈ addrs l₁, a ∉ addrs l₂) :
    Seg (h.link p (lastAddr l₁) n).1 (h.link p (lastAddr l₁) n).2 (l₁ ++ l₂) none := by
  rcases List.eq_nil_or_concat l₁ with rfl | ⟨l, ⟨b, v⟩, rfl⟩
  · exact h₂
  · rw [List.concat_eq_append] at *
    rw [lastAddr_snoc]
    obtain ⟨m', h₁, hb⟩ := append.1 h₁
    obtain ⟨rfl, k, hk, -⟩ := hb
    have hb : b ∉ addrs l := by
      rw [addrs, List.map_append, List.map_singleton, List.nodup_append] at hn
      exact fun hmem => hn.2.2 _ hmem _ (List.mem_singleton_self _) rfl
    have hb₂ : b ∉ addrs l₂ := hd b (by simp [addrs])
    refine append.2 ⟨n, append.2 ⟨some b, h₁.frame ?_, rfl, n, ?_, rfl⟩, h₂.frame ?_⟩
    · exact fun a ha => h.setNext_of_ne n (ne_of_mem_of_not_mem ha hb)
    · exact h.setNext_self n hk
    · exact fun a ha => h.setNext_of_ne n (ne_of_mem_of_not_mem ha hb₂)

/-- Outside the nodes `l₁` nothing is stored. -/
theorem link_of_notMem {l₁ : List (A × V)} {n : Option A} {a : A} (ha : a ∉ addrs l₁) :
    (h.link p (lastAddr l₁) n).1 a = h a := by
  rcases List.eq_nil_or_concat l₁ with rfl | ⟨l, ⟨b, v⟩, rfl⟩
  · rfl
  · rw [List.concat_eq_append] at *
    rw [lastAddr_snoc]
    refine h.setNext_of_ne n fun hab => ha ?_
    simp [addrs, hab]

/-- Unlinking a node and freeing it takes it out of the list. -/
theorem unlink {l₁ l₂ : List (A × V)} {a : A} {v : V} {c : Cell A V} (hs : Seg h p (l₁ ++ (a, v) :: l₂) none)
    (hc : h a = some c) : c.val = v ∧
      Seg ((h.link p (lastAddr l₁) c.next).1.free a) (h.link p (lastAddr l₁) c.next).2 (l₁ ++ l₂) none := by
  have hnodup := hs.nodup
  rw [addrs, List.map_append, List.map_cons, List.nodup_append, List.nodup_cons] at hnodup
  obtain ⟨hn₁, ⟨ha₂, -⟩, hd⟩ := hnodup
  obtain ⟨m, h₁, hm⟩ := append.1 hs
  obtain ⟨rfl, n, hn, h₂⟩ := hm
  obtain rfl := Option.some.inj (hn.symm.trans hc)
  refine ⟨rfl, (h₁.link hn₁ h₂ fun b hb hb' => ?_).frame fun b hb => ?_⟩
  · exact hd b hb b (List.mem_cons_of_mem _ hb') rfl
  · refine Heap.free_of_ne _ fun hab => ?_
    rw [addrs, List.map_append, List.mem_append] at hb
    rcases hb with hb | hb
    · exact hd b hb a (List.mem_cons_self ..) hab
    · exact ha₂ (hab ▸ hb)

theorem modify (hs : Seg h p l q) (a : A) (f : V → V) :
    Seg (h.modify a f) p (l.map fun x => if x.1 = a then (x.1, f x.2) else x) q := by
  induction l generalizing p with
  | nil => exact hs
  | cons x l ih =>
    obtain ⟨b, v⟩ := x
    obtain ⟨rfl, n, hn, hs⟩ := hs
    rcases eq_or_ne b a with rfl | hb
    · simp only [List.map_cons, if_true]
      exact ⟨rfl, n, h.modify_self f hn, ih hs⟩
    · simp only [List.map_cons, hb, if_false]
      refine ⟨rfl, n, ?_, ih hs⟩
      rw [Heap.modify, Function.update_of_ne hb, hn]

end Seg
end Linked
