import Mathlib.Algebra.Order.Ring.Nat
import Mathlib.Data.Nat.Bitwise
import Mathlib.Tactic.Common

/-!
# Sizes rounded up

To multiples of the alignment; in machine words by adding and masking, and in a
structure from one member to the next.
-/

namespace MyOS.Aligned

/-- The next multiple of `a`. -/
def roundUp (a n : Nat) : Nat := (n + (a - 1)) / a * a

/-- In a word of 32 bits a mask with `k` zeros at the low end. -/
theorem and_high {x k : Nat} (word : x < 2 ^ 32) (low : k ≤ 32) :
    x &&& (2 ^ (32 - k) - 1) * 2 ^ k = x / 2 ^ k * 2 ^ k := by
  apply Nat.eq_of_testBit_eq
  intro i
  rw [Nat.testBit_and, Nat.testBit_mul_two_pow, Nat.testBit_mul_two_pow,
    Nat.testBit_two_pow_sub_one, Nat.testBit_div_two_pow]
  by_cases kept : k ≤ i
  · by_cases high : i < 32
    · simp [kept, show i - k < 32 - k by omega]
    · have above : 2 ^ 32 ≤ 2 ^ i := Nat.pow_le_pow_right (by decide) (Nat.not_lt.mp high)
      simp [kept, Nat.testBit_lt_two_pow (Nat.lt_of_lt_of_le word above)]
  · simp [kept]

theorem toNat_and_high (x : UInt32) {w : UInt32} {k : Nat} (low : k ≤ 32)
    (mask : w.toNat = (2 ^ (32 - k) - 1) * 2 ^ k) : (x &&& w).toNat = x.toNat / 2 ^ k * 2 ^ k := by
  rw [UInt32.toNat_and, mask, and_high x.toNat_lt low]

/-- Where the members of a structure stand, each one at the next multiple of its
own size. -/
def offsets : Nat → List Nat → List Nat
  | _, [] => []
  | free, size :: sizes => roundUp size free :: offsets (roundUp size free + size) sizes

/-- A structure ends at a multiple of its largest member. -/
def sizeOf (sizes : List Nat) : Nat :=
  roundUp (sizes.foldl max 1)
    (((offsets 0 sizes).getLast?.getD 0) + sizes.getLast?.getD 0)

end MyOS.Aligned
