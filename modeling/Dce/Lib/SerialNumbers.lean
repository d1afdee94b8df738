import Mathlib.Algebra.Ring.Int.Defs
import Mathlib.Data.Nat.Cast.Order.Ring

namespace lib

/-- The comparison of numbers that wrap around: one is below another when their difference is a negative number. -/
def serialLt {w : ℕ} (a b : BitVec w) : Prop := (a - b).toInt < 0

/-- The comparison of numbers that wrap around, with equality. -/
def serialLe {w : ℕ} (a b : BitVec w) : Prop := (a - b).toInt ≤ 0

instance {w : ℕ} (a b : BitVec w) : Decidable (serialLt a b) := inferInstanceAs (Decidable ((a - b).toInt < 0))

instance {w : ℕ} (a b : BitVec w) : Decidable (serialLe a b) := inferInstanceAs (Decidable ((a - b).toInt ≤ 0))

section Near

variable {w a b : ℕ}

theorem toInt_ofNat_sub_ofNat (hlow : (a : ℤ) < b + 2 ^ w) (hhigh : (b : ℤ) ≤ a + 2 ^ w) :
    (BitVec.ofNat (w + 1) a - BitVec.ofNat (w + 1) b).toInt = a - b := by
  have hrange : ((2 ^ (w + 1) : ℕ) : ℤ) = 2 ^ w * 2 := by rw [pow_succ]; push_cast; rfl
  rw [BitVec.toInt_sub, BitVec.toInt_ofNat', BitVec.toInt_ofNat', Int.sub_bmod_bmod, Int.bmod_sub_bmod]
  apply Int.bmod_eq_of_le_mul_two
  · rw [hrange]
    omega
  · rw [hrange]
    omega

theorem serialLt_ofNat_iff (hlow : (a : ℤ) < b + 2 ^ w) (hhigh : (b : ℤ) ≤ a + 2 ^ w) :
    serialLt (BitVec.ofNat (w + 1) a) (BitVec.ofNat (w + 1) b) ↔ a < b := by
  rw [serialLt, toInt_ofNat_sub_ofNat hlow hhigh]
  omega

theorem serialLe_ofNat_iff (hlow : (a : ℤ) < b + 2 ^ w) (hhigh : (b : ℤ) ≤ a + 2 ^ w) :
    serialLe (BitVec.ofNat (w + 1) a) (BitVec.ofNat (w + 1) b) ↔ a ≤ b := by
  rw [serialLe, toInt_ofNat_sub_ofNat hlow hhigh]
  omega

end Near

end lib
