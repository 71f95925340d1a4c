import Mathlib

/-!
# Blocks of memory

A memory has a byte at each 64-bit address, and addresses wrap around. `put` writes a block that is read from
another memory, `Shows m base len source src` says that the block of `m` at `base` holds what the block of
`source` at `src` does: copying a block that shows another shows it too (`shows_copy`), a later copy leaves a
block as it is when it is elsewhere or copies the same bytes (`Shows.put_of_disjoint`, `Shows.put_alike`), and
blocks that cover a larger one show it piece by piece (`Shows.whole`).
-/

/-- The bytes at each address. -/
abbrev Memory := UInt64 → UInt8

namespace Memory

/-- The address is one of the `len` from `base` on. -/
def Within (base : UInt64) (len : Nat) (x : UInt64) : Prop := (x - base).toNat < len

instance decidableWithin (base : UInt64) (len : Nat) (x : UInt64) : Decidable (Within base len x) :=
  inferInstanceAs (Decidable (_ < _))

/-- The memory after the `len` bytes of `source` at `src` were written to `dst`. -/
def put (m : Memory) (dst : UInt64) (len : Nat) (source : Memory) (src : UInt64) : Memory := fun x =>
  if Within dst len x then source (src + (x - dst)) else m x

def Shows (m : Memory) (base : UInt64) (len : Nat) (source : Memory) (src : UInt64) : Prop :=
  ∀ x, Within base len x → m x = source (src + (x - base))

variable {m source through : Memory} {base dst src mid off x : UInt64} {len n : Nat}

/-- The distance from the start of a part and from the start of the whole. -/
theorem sub_add_toNat (h : off.toNat ≤ (x - base).toNat) : (x - (base + off)).toNat = (x - base).toNat - off.toNat := by
  have hsub : x - (base + off) = x - base - off := by grind
  rw [hsub, UInt64.toNat_sub_of_le _ _ (UInt64.le_iff_toNat_le.2 h)]

/-- A part of a block that does not wrap around is inside it. -/
theorem Within.of_part (h : Within (base + off) n x) (hle : off.toNat + n ≤ len) (hlt : len ≤ 2 ^ 64) :
    Within base len x := by
  have hsum : x - base = off + (x - (base + off)) := by grind
  rw [Within] at h ⊢
  rw [hsum, UInt64.toNat_add, Nat.mod_eq_of_lt (by omega)]
  omega

theorem shows_self : source.Shows src n source src := by
  intro x _
  congr 1
  grind

/-- A copy of a block that shows another. -/
theorem shows_copy (h : through.Shows mid n source src) : (m.put dst n through mid).Shows dst n source src := by
  intro x hx
  have hmid : Within mid n (mid + (x - dst)) := by
    have hsub : mid + (x - dst) - mid = x - dst := by grind
    rwa [Within, hsub]
  rw [put, if_pos hx, h _ hmid]
  congr 1
  grind

theorem Shows.put_of_disjoint {mid' : UInt64} (h : m.Shows base len source src)
    (hd : ∀ x, Within base len x → ¬ Within dst n x) : (m.put dst n through mid').Shows base len source src := by
  intro x hx
  rw [put, if_neg (hd x hx)]
  exact h x hx

/-- Both copies displace the bytes of `source` alike. -/
theorem Shows.put_alike {src' : UInt64} (h : m.Shows base len source src) (hh : through.Shows mid n source src')
    (hd : src' - dst = src - base) : (m.put dst n through mid).Shows base len source src := by
  intro x hx
  by_cases hx' : Within dst n x
  · rw [shows_copy hh x hx']
    congr 1
    grind
  · rw [put, if_neg hx']
    exact h x hx

/-- Every byte of the block is in a part that shows its part. -/
theorem Shows.whole (h : ∀ k < len, ∃ off n, off.toNat ≤ k ∧ k < off.toNat + n ∧ m.Shows (base + off) n source (src + off)) :
    m.Shows base len source src := by
  intro x hx
  obtain ⟨off, n, hle, hlt, hshow⟩ := h _ hx
  have hpart : Within (base + off) n x := by
    rw [Within, sub_add_toNat hle]
    omega
  rw [hshow x hpart]
  congr 1
  grind

end Memory
