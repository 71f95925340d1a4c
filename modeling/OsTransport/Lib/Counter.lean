import Mathlib

/-!
# A 32-bit `int` as a counter

`Int32.ofNat n` is what a C `int` holds after counting `n` things, also past its range, where it
wraps. Counting up and down agrees with the count of things (`Int32.count_add`, `Int32.count_sub`,
`Int32.count_dec`, `Int32.count_off`), and the counter reads 0 exactly when nothing is left (`Int32.count_eq_zero`),
as long as fewer than 2^32 things are counted. The same for an unsigned counter.
-/

namespace Int32

theorem count_add (a b : Nat) : ofNat a + (UInt32.ofNat b).toInt32 = ofNat (a + b) := by
  rw [UInt32.toInt32_ofNat', ofNat_add]

theorem count_sub (a b : Nat) : ofNat (a + b) + -(UInt32.ofNat b).toInt32 = ofNat a := by
  rw [UInt32.toInt32_ofNat', ofNat_add, Int32.add_assoc, Int32.add_right_neg, Int32.add_zero]

theorem count_dec (n : Nat) : ofNat (n + 1) + -1 = ofNat n := by
  rw [ofNat_add, Int32.add_assoc, show ofNat 1 + -1 = 0 from rfl, Int32.add_zero]

theorem count_eq_zero {n : Nat} (h : n < 2 ^ 32) : ofNat n = 0 ↔ n = 0 := by
  rw [← Int32.toBitVec_inj]
  change BitVec.ofNat 32 n = 0#32 ↔ n = 0
  rw [← BitVec.toNat_inj, BitVec.toNat_ofNat, Nat.mod_eq_of_lt h]
  rfl

/-- What is counted off leaves 0 just when it was the count. -/
theorem count_off {a b : Int32} : a + -b = 0 ↔ a = b := by
  constructor <;> intro h <;> grind

theorem add_add_neg (n d : Int32) : n + d + -d = n := by
  rw [Int32.add_assoc, Int32.add_right_neg, Int32.add_zero]

end Int32

namespace UInt32

theorem count_pop (n : Nat) : ofNat (n + 1) - 1 = ofNat n := by
  rw [ofNat_add]; simp

theorem count_remove (a b : Nat) : ofNat (a + b) - ofNat a = ofNat b := by
  rw [ofNat_add, UInt32.add_comm]; simp

theorem count_eq_zero {n : Nat} (h : n < 2 ^ 32) : ofNat n = 0 ↔ n = 0 := by
  rw [← UInt32.toNat_inj, UInt32.toNat_ofNat', Nat.mod_eq_of_lt h]
  rfl

end UInt32
