import OsTransport.Lib.Ring
import OsTransport.Lib.Run

/-!
# The event queue of the tests (`MockEventQueue`)

What `os_transport_thread_pool.c` has under `TEST_MODE`: request ids in a ring buffer that doubles when it is full.
An operation that would access memory outside of the buffer or divide by 0 is `none` here. A push does so on a
full buffer when the `malloc` of the new one fails, which nobody checks, or when the buffer has 2^31 events or
more, since `cap * 2` wraps around, and only there (`Holds.push_eq_none_iff`). Over any run without such a push
the queue is first in, first out (`events_refine`).
-/

namespace OsTransport

/-- `MockEventQueue`. Every operation holds the mutex from its start to its end. -/
structure MockEventQueue where
  events : List UInt64
  cap : UInt32
  head : UInt32
  tail : UInt32
  size : UInt32
deriving DecidableEq

namespace MockEventQueue

/-- `malloc(n * sizeof(uint64_t))`; `junk` is what the block happens to hold. When it fails, what is behind the NULL
pointer is no memory. -/
def malloc (junk : Nat → UInt64) (ok : Bool) (n : UInt32) : List UInt64 :=
  if ok then (List.range n.toNat).map junk else []

/-- `mock_event_queue_init`. -/
def init (junk : Nat → UInt64) (ok : Bool) (cap : UInt32) : MockEventQueue := ⟨malloc junk ok cap, cap, 0, 0, 0⟩

variable (q : MockEventQueue)

/-- `n` turns of the loop that copies the events, from `i` on. -/
def copyLoop : Nat → UInt32 → List UInt64 → Option (List UInt64)
  | 0, _, newEvents => some newEvents
  | n + 1, i, newEvents =>
    match q.events[((q.head + i) % q.cap).toNat]? with
    | some e =>
      if i.toNat < newEvents.length then copyLoop n (i + 1) (newEvents.set i.toNat e) else none
    | none => none

/-- The queue moves to a block of twice the capacity. -/
def grow (junk : Nat → UInt64) (ok : Bool) : Option MockEventQueue :=
  let newCap := q.cap * 2
  (q.copyLoop q.size.toNat 0 (malloc junk ok newCap)).map fun newEvents =>
    { q with events := newEvents, cap := newCap, head := 0, tail := q.size }

def put (reqId : UInt64) : Option MockEventQueue :=
  if q.tail.toNat < q.events.length then
    some { q with
      events := q.events.set q.tail.toNat reqId, tail := (q.tail + 1) % q.cap, size := q.size + 1 }
  else none

/-- `mock_event_queue_push`; `ok` says whether its `malloc` succeeds. -/
def push (junk : Nat → UInt64) (ok : Bool) (reqId : UInt64) : Option MockEventQueue :=
  if q.cap ≤ q.size then (q.grow junk ok).bind fun q => q.put reqId else q.put reqId

/-- `mock_event_queue_pop`: the event is `none` where it returns 0. -/
def pop : Option (MockEventQueue × Option UInt64) :=
  if q.size = 0 then some (q, none)
  else match q.events[q.head.toNat]? with
    | some e => some ({ q with head := (q.head + 1) % q.cap, size := q.size - 1 }, some e)
    | none => none

/-- The queue holds the events `l`, oldest first. -/
structure Holds (l : List UInt64) : Prop where
  block : q.events.length = q.cap.toNat
  size : q.size.toNat = l.length
  tail : q.tail.toNat = (q.head.toNat + l.length) % q.cap.toNat
  ring : Ring.Holds q.events q.head.toNat l

variable {q} {l : List UInt64} {junk : Nat → UInt64} {ok : Bool}

theorem length_malloc (n : UInt32) : (malloc junk true n).length = n.toNat := by
  rw [malloc, if_pos rfl, List.length_map, List.length_range]

/-- An index does not wrap before it is reduced. -/
theorem index_toNat {a b cap : UInt32} (h : a.toNat + b.toNat < 2 ^ 32) :
    ((a + b) % cap).toNat = (a.toNat + b.toNat) % cap.toNat := by
  rw [UInt32.toNat_mod, UInt32.toNat_add, Nat.mod_eq_of_lt h]

theorem next_toNat {a cap : UInt32} (h : a.toNat < cap.toNat) : ((a + 1) % cap).toNat = (a.toNat + 1) % cap.toNat := by
  have := cap.toNat_lt
  exact index_toNat (by rw [UInt32.toNat_one]; omega)

theorem holds_init {cap : UInt32} (hcap : 0 < cap.toNat) : (init junk true cap).Holds [] where
  block := length_malloc cap
  size := rfl
  tail := (Nat.zero_mod _).symm
  ring := Ring.holds_nil (by rw [init, length_malloc]; exact hcap)

namespace Holds

theorem length_le (h : q.Holds l) : l.length ≤ q.cap.toNat := h.block ▸ h.ring.length_le

theorem head_lt (h : q.Holds l) : q.head.toNat < q.cap.toNat := h.block ▸ h.ring.head_lt

theorem put (h : q.Holds l) (hlt : l.length < q.cap.toNat) (e : UInt64) : ∃ q', q.put e = some q' ∧ q'.Holds (l ++ [e]) := by
  have hhead := h.head_lt
  have hbound := q.cap.toNat_lt
  have htail : q.tail.toNat < q.cap.toNat := h.tail ▸ Nat.mod_lt _ (by omega)
  refine ⟨_, if_pos (h.block ▸ htail), ?_, ?_, ?_, ?_⟩
  · rw [List.length_set]
    exact h.block
  · rw [UInt32.toNat_add, UInt32.toNat_one, h.size, Nat.mod_eq_of_lt (by omega), List.length_append,
      List.length_singleton]
  · rw [next_toNat htail, h.tail, Nat.mod_add_mod, List.length_append, List.length_singleton, Nat.add_assoc]
  · have hring := h.ring.push (x := e) (h.block ▸ hlt)
    rw [h.block, ← h.tail] at hring
    exact hring

theorem copyLoop (h : q.Holds l) (hcap : q.cap.toNat < 2 ^ 31) (newEvents : List UInt64) {n : Nat} {i : UInt32}
    (hn : i.toNat + n = l.length) (hlen : l.length ≤ newEvents.length)
    (hdone : ∀ j < i.toNat, newEvents[j]? = l[j]?) :
    ∃ copied, q.copyLoop n i newEvents = some copied ∧ copied.length = newEvents.length ∧
      ∀ j < l.length, copied[j]? = l[j]? := by
  induction n generalizing i newEvents with
  | zero => exact ⟨newEvents, rfl, rfl, fun j hj => hdone j (by omega)⟩
  | succ n ih =>
    have hle := h.length_le
    have hhead := h.head_lt
    have hi : i.toNat < l.length := by omega
    have hread : q.events[((q.head + i) % q.cap).toNat]? = some l[i.toNat] := by
      rw [index_toNat (by omega), ← h.block, h.ring.cell _ hi, List.getElem?_eq_getElem hi]
    have hnext : (i + 1).toNat = i.toNat + 1 := by
      rw [UInt32.toNat_add, UInt32.toNat_one, Nat.mod_eq_of_lt (by omega)]
    obtain ⟨copied, hcopied, hlength, hall⟩ := ih (newEvents.set i.toNat l[i.toNat]) (i := i + 1)
      (by omega) (by rwa [List.length_set]) (by
        intro j hj
        rcases eq_or_ne i.toNat j with rfl | hne
        · rw [List.getElem?_set_self (by omega), List.getElem?_eq_getElem hi]
        · rw [List.getElem?_set_ne hne]
          exact hdone j (by omega))
    refine ⟨copied, ?_, by rw [hlength, List.length_set], hall⟩
    simp only [MockEventQueue.copyLoop, hread]
    rw [if_pos (by omega)]
    exact hcopied

theorem grow (h : q.Holds l) (hcap : q.cap.toNat < 2 ^ 31) (junk : Nat → UInt64) :
    ∃ q', q.grow junk true = some q' ∧ q'.Holds l ∧ l.length < q'.cap.toNat := by
  have hle := h.length_le
  have hhead := h.head_lt
  have htwice : (q.cap * 2).toNat = q.cap.toNat * 2 := by
    rw [UInt32.toNat_mul]
    exact Nat.mod_eq_of_lt (by show q.cap.toNat * 2 < 2 ^ 32; omega)
  obtain ⟨copied, hcopied, hlen, hall⟩ := h.copyLoop hcap (malloc junk true (q.cap * 2))
    (n := q.size.toNat) (i := 0) (by rw [h.size]; exact Nat.zero_add _)
    (by rw [length_malloc, htwice]; omega) (fun j hj => absurd hj (Nat.not_lt_zero j))
  rw [length_malloc] at hlen
  refine ⟨⟨copied, q.cap * 2, 0, q.size, q.size⟩, ?_, ⟨hlen, h.size, ?_, ?_⟩, ?_⟩
  · rw [MockEventQueue.grow, hcopied]
    rfl
  · show q.size.toNat = (0 + l.length) % (q.cap * 2).toNat
    rw [h.size, htwice, Nat.zero_add, Nat.mod_eq_of_lt (by omega)]
  · exact Ring.holds_flat (by rw [hlen, htwice]; omega) (by rw [hlen, htwice]; omega) hall
  · show l.length < (q.cap * 2).toNat
    omega

theorem push (h : q.Holds l) (hroom : l.length < q.cap.toNat ∨ q.cap.toNat < 2 ^ 31 ∧ ok = true)
    (junk : Nat → UInt64) (e : UInt64) : ∃ q', q.push junk ok e = some q' ∧ q'.Holds (l ++ [e]) := by
  by_cases hfull : q.cap ≤ q.size
  · have hcap : q.cap.toNat ≤ l.length := h.size ▸ UInt32.le_iff_toNat_le.1 hfull
    obtain ⟨hdouble, rfl⟩ := hroom.resolve_left (Nat.not_lt.2 hcap)
    obtain ⟨q₁, hgrow, h₁, hlt⟩ := h.grow hdouble junk
    obtain ⟨q₂, hput, h₂⟩ := h₁.put hlt e
    refine ⟨q₂, ?_, h₂⟩
    rw [MockEventQueue.push, if_pos hfull, hgrow]
    exact hput
  · have hlt : l.length < q.cap.toNat := by
      rw [← h.size]
      exact Nat.not_le.1 fun hc => hfull (UInt32.le_iff_toNat_le.2 hc)
    obtain ⟨q₂, hput, h₂⟩ := h.put hlt e
    exact ⟨q₂, (if_neg hfull).trans hput, h₂⟩

theorem pop (h : q.Holds l) : ∃ q', q.pop = some (q', l.head?) ∧ q'.Holds l.tail := by
  have hsize := h.size
  cases l with
  | nil =>
    refine ⟨q, if_pos ?_, h⟩
    exact UInt32.toNat.inj hsize
  | cons x l =>
    rw [List.length_cons] at hsize
    have hne : q.size ≠ 0 := by
      intro h₀
      rw [h₀] at hsize
      cases hsize
    have hnext := next_toNat h.head_lt
    refine ⟨{ q with head := (q.head + 1) % q.cap, size := q.size - 1 }, ?_, h.block, ?_, ?_, ?_⟩
    · rw [MockEventQueue.pop, if_neg hne, h.ring.first]
      rfl
    · show (q.size - 1).toNat = l.length
      rw [UInt32.toNat_sub_of_le _ _ (UInt32.le_iff_toNat_le.2 (by rw [UInt32.toNat_one]; omega)), hsize]
      rfl
    · show q.tail.toNat = (((q.head + 1) % q.cap).toNat + l.length) % q.cap.toNat
      rw [hnext, Nat.mod_add_mod, h.tail, List.length_cons, Nat.add_assoc, Nat.add_comm 1]
    · show Ring.Holds q.events ((q.head + 1) % q.cap).toNat l
      rw [hnext, ← h.block]
      exact h.ring.rest

end Holds

/-- The loop writes behind the end of a block that is too short. -/
theorem copyLoop_eq_none {n : Nat} {i : UInt32} {newEvents : List UInt64} (hi : i.toNat ≤ newEvents.length)
    (hlen : newEvents.length < i.toNat + n) (hn : i.toNat + n < 2 ^ 32) : q.copyLoop n i newEvents = none := by
  induction n generalizing i newEvents with
  | zero => omega
  | succ n ih =>
    have hnext : (i + 1).toNat = i.toNat + 1 := by
      rw [UInt32.toNat_add, UInt32.toNat_one, Nat.mod_eq_of_lt (by omega)]
    simp only [copyLoop]
    split
    · split
      · refine ih ?_ ?_ ?_
        · rw [hnext, List.length_set]
          omega
        · rw [hnext, List.length_set]
          omega
        · omega
      · rfl
    · rfl

/-- A push goes wrong on a full queue whose capacity cannot be doubled or whose `malloc` fails, and on no other. -/
theorem Holds.push_eq_none_iff (h : q.Holds l) {e : UInt64} :
    q.push junk ok e = none ↔ l.length = q.cap.toNat ∧ (2 ^ 31 ≤ q.cap.toNat ∨ ok = false) := by
  have hle := h.length_le
  constructor
  · intro hnone
    by_contra hc
    have hroom : l.length < q.cap.toNat ∨ q.cap.toNat < 2 ^ 31 ∧ ok = true := by
      rcases Nat.lt_or_ge l.length q.cap.toNat with hlt | hge
      · exact .inl hlt
      · have hboth := not_or.1 fun hor => hc ⟨Nat.le_antisymm hle hge, hor⟩
        exact .inr ⟨Nat.not_le.1 hboth.1, by simpa using hboth.2⟩
    obtain ⟨q', hq', -⟩ := h.push hroom junk e
    cases hnone.symm.trans hq'
  · rintro ⟨hfull, hcap⟩
    have hbound := q.cap.toNat_lt
    have hhead := h.head_lt
    have hshort : (malloc junk ok (q.cap * 2)).length < l.length := by
      cases ok with
      | false => exact Nat.lt_of_le_of_lt (Nat.zero_le _) (hfull ▸ hhead)
      | true =>
        have hcap : 2 ^ 31 ≤ q.cap.toNat := hcap.resolve_right (by decide)
        have htwice : (q.cap * 2).toNat = q.cap.toNat * 2 - 2 ^ 32 := by
          rw [UInt32.toNat_mul, show (2 : UInt32).toNat = 2 from rfl, Nat.mod_eq_sub_mod (by omega),
            Nat.mod_eq_of_lt (by omega)]
        rw [length_malloc, htwice]
        omega
    have hcopy : q.copyLoop q.size.toNat 0 (malloc junk ok (q.cap * 2)) = none := by
      refine copyLoop_eq_none (Nat.zero_le _) ?_ ?_
      · rw [h.size, UInt32.toNat_zero]
        omega
      · rw [h.size, UInt32.toNat_zero]
        omega
    have hsize : q.cap ≤ q.size := UInt32.le_iff_toNat_le.2 (by rw [h.size, hfull])
    rw [MockEventQueue.push, if_pos hsize, MockEventQueue.grow, hcopy]
    rfl

/-! ### Runs -/

inductive Act
  /-- `ok` says whether the `malloc` of a larger buffer succeeds -/
  | push (reqId : UInt64) (ok : Bool)
  | pop
deriving DecidableEq

def step (junk : Nat → UInt64) (q : MockEventQueue) : Act → Option MockEventQueue
  | .push reqId ok => q.push junk ok reqId
  | .pop => q.pop.map Prod.fst

/-- What an operation hands out. -/
def out (q : MockEventQueue) : Act → List (Option UInt64)
  | .push .. => []
  | .pop => (q.pop.map Prod.snd).toList

/-- The queue that is wanted: first in, first out. -/
def fifo (l : List UInt64) : Act → Option (List UInt64)
  | .push reqId _ => some (l ++ [reqId])
  | .pop => some l.tail

def fifoOut (l : List UInt64) : Act → List (Option UInt64)
  | .push .. => []
  | .pop => [l.head?]

/-- The buffer has room for the push, or can be doubled. -/
def HasRoom (q : MockEventQueue) : Act → Prop
  | .push _ ok => q.size.toNat < q.cap.toNat ∨ q.cap.toNat < 2 ^ 31 ∧ ok = true
  | .pop => True

instance decidableHasRoom (q : MockEventQueue) (act : Act) : Decidable (HasRoom q act) :=
  match act with
  | .push .. => inferInstanceAs (Decidable (_ ∨ _))
  | .pop => .isTrue trivial

open Lts

theorem Holds.step (h : q.Holds l) (junk : Nat → UInt64) {act : Act} (hroom : HasRoom q act) : ∃ q' l',
    step junk q act = some q' ∧ fifo l act = some l' ∧ q'.Holds l' ∧ out q act = fifoOut l act := by
  cases act with
  | push reqId ok =>
    have hroom : q.size.toNat < q.cap.toNat ∨ q.cap.toNat < 2 ^ 31 ∧ ok = true := hroom
    rw [h.size] at hroom
    obtain ⟨q', hq', h'⟩ := h.push hroom junk reqId
    exact ⟨q', l ++ [reqId], hq', rfl, h', rfl⟩
  | pop =>
    obtain ⟨q', hq', h'⟩ := h.pop
    refine ⟨q', l.tail, ?_, rfl, h', ?_⟩
    · rw [MockEventQueue.step, hq']
      rfl
    · rw [out, hq']
      rfl

theorem Holds.run (h : q.Holds l) {as : List Act} (hroom : Along (MockEventQueue.step junk) HasRoom q as) : ∃ q' l',
    exec (MockEventQueue.step junk) q as = some q' ∧ exec fifo l as = some l' ∧ q'.Holds l' ∧
      trace (MockEventQueue.step junk) out q as = trace fifo fifoOut l as := by
  induction as generalizing q l with
  | nil => exact ⟨q, l, rfl, rfl, h, rfl⟩
  | cons act as ih =>
    obtain ⟨q₁, l₁, hq, hl, h₁, hout⟩ := h.step junk hroom.1
    obtain ⟨q', l', hq', hl', h', htrace⟩ := ih h₁ (hroom.2 q₁ hq)
    refine ⟨q', l', exec_cons.2 ⟨q₁, hq, hq'⟩, exec_cons.2 ⟨l₁, hl, hl'⟩, h', ?_⟩
    simp only [trace, hq, hl, hout, htrace]

/-- Over every run from a `mock_event_queue_init` that got its buffer, whose pushes have room, no operation leaves the buffer or divides
by 0, and what is popped is what a first-in-first-out queue of the pushed ids hands out. -/
theorem events_refine {cap : UInt32} (hcap : 0 < cap.toNat) {as : List Act}
    (hroom : Along (step junk) HasRoom (init junk true cap) as) : ∃ q l,
    exec (step junk) (init junk true cap) as = some q ∧ exec fifo [] as = some l ∧ q.Holds l ∧
      trace (step junk) out (init junk true cap) as = trace fifo fifoOut [] as :=
  (holds_init hcap).run hroom

/-- A buffer of one event is doubled twice, the second time while its oldest event is at index 1. -/
def doubledTwice : List Act :=
  [.push 5 false, .push 6 true, .pop, .push 7 false, .push 8 true, .pop, .pop, .pop, .pop]

theorem doubledTwice_refine : ∃ q l,
    exec (step fun _ => 0) (init (fun _ => 0) true 1) doubledTwice = some q ∧ exec fifo [] doubledTwice = some l ∧ q.Holds l ∧
      trace (step fun _ => 0) out (init (fun _ => 0) true 1) doubledTwice = trace fifo fifoOut [] doubledTwice :=
  events_refine (by decide) (by decide +kernel)

end MockEventQueue
end OsTransport
