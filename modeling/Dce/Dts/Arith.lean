import Mathlib.Tactic.LinearCombination
import Dce.Dts.Comptime

namespace dce.dts

/-- `unsigned64` on the hosts whose `long` has 32 bits. -/
structure unsigned64 where
  hi : BitVec 32
  lo : BitVec 32
  deriving DecidableEq, Repr

def unsigned64.value (a : unsigned64) : UTCValue := U64SET64 a.hi a.lo

def SIGN : BitVec 32 := 0x80000000

def U64IADD (add1 : unsigned64) (I : BitVec 32) : unsigned64 :=
  let result : unsigned64 := { lo := I + add1.lo, hi := add1.hi }
  if decide (add1.lo &&& SIGN ≠ 0) ^^ I.slt 0 then
    let result := if I.slt 0 then { result with hi := result.hi - 1 } else result
    if result.lo &&& SIGN = 0 then { result with hi := result.hi + 1 } else result
  else result

theorem sign_iff (x : BitVec 32) : x &&& SIGN ≠ 0 ↔ x.msb = true := by
  have hx := x.isLt
  have hmask : (x &&& SIGN).toNat = x.toNat / 2 ^ 31 % 2 ^ 1 * 2 ^ 31 := and_mask x.toNat 31 1
  rw [ne_eq, ← BitVec.toNat_inj, hmask, BitVec.msb_eq_decide]
  simp
  omega

theorem msb_iff (x : BitVec 32) : x.msb = true ↔ 2 ^ 31 ≤ x.toNat := by simp [BitVec.msb_eq_decide]

variable (a : unsigned64)

theorem toNat_value : a.value.toNat = a.hi.toNat * 2 ^ 32 + a.lo.toNat := toNat_U64SET64 a.hi a.lo

theorem value_hi_add (h : BitVec 32) :
    (unsigned64.value { a with hi := a.hi + h }) = a.value + U64SET64 h 0 := by
  have hlo := a.lo.isLt
  have hhi := a.hi.isLt
  have hh := h.isLt
  apply BitVec.eq_of_toNat_eq
  rw [toNat_value, BitVec.toNat_add, BitVec.toNat_add, toNat_value, toNat_U64SET64]
  simp only [BitVec.ofNat_eq_ofNat, BitVec.toNat_ofNat]
  omega

theorem U64IADD_hi (I : BitVec 32) :
    (U64IADD a I).hi =
      if 2 ^ 31 ≤ I.toNat then if 2 ^ 32 ≤ I.toNat + a.lo.toNat then a.hi else a.hi - 1
      else if 2 ^ 32 ≤ I.toNat + a.lo.toNat then a.hi + 1 else a.hi := by
  have hlo := a.lo.isLt
  have hI := I.isLt
  have hsign : a.lo &&& SIGN ≠ 0 ↔ 2 ^ 31 ≤ a.lo.toNat := by rw [sign_iff, msb_iff]
  have hneg : I.slt 0 = decide (2 ^ 31 ≤ I.toNat) := by rw [BitVec.ofNat_eq_ofNat, BitVec.slt_zero_eq_msb, BitVec.msb_eq_decide]
  have hsum : (I + a.lo) &&& SIGN = 0 ↔ (I.toNat + a.lo.toNat) % 2 ^ 32 < 2 ^ 31 := by
    rw [← not_iff_not, ← ne_eq, sign_iff, msb_iff, BitVec.toNat_add]
    omega
  simp only [U64IADD, hsign, hneg]
  by_cases hIneg : 2 ^ 31 ≤ I.toNat <;> by_cases hloneg : 2 ^ 31 ≤ a.lo.toNat <;>
    simp only [hIneg, hloneg, decide_true, decide_false, Bool.xor_self, Bool.xor_false, Bool.xor_true, Bool.not_false, ↓reduceIte,
      Bool.false_eq_true, hsum] <;> split_ifs <;> first | rfl | omega | exact BitVec.sub_add_cancel _ _

theorem value_U64IADD (I : BitVec 32) : (U64IADD a I).value = UTCiAdd a.value I.toInt := by
  have hlo := a.lo.isLt
  have hhi := a.hi.isLt
  have hI := I.isLt
  have hint : (BitVec.ofInt 64 I.toInt).toNat = if 2 ^ 31 ≤ I.toNat then I.toNat + (2 ^ 64 - 2 ^ 32) else I.toNat := by
    rw [BitVec.toNat_ofInt, BitVec.toInt_eq_toNat_cond]
    split <;> split <;> omega
  have hlosum : (U64IADD a I).lo = I + a.lo := by
    simp only [U64IADD]
    split_ifs <;> rfl
  have hinc : (a.hi + 1).toNat = (a.hi.toNat + 1) % 2 ^ 32 := BitVec.toNat_add _ _
  have hdec : (a.hi - 1).toNat = (a.hi.toNat + (2 ^ 32 - 1)) % 2 ^ 32 := by
    rw [BitVec.toNat_sub, Nat.add_comm]
    rfl
  apply BitVec.eq_of_toNat_eq
  rw [UTCiAdd, BitVec.toNat_add, hint, toNat_value, toNat_value, U64IADD_hi, hlosum, BitVec.toNat_add]
  split_ifs <;> omega

theorem toInt_value : a.value.toInt = a.hi.toInt * 2 ^ 32 + a.lo.toNat := by
  have hlo := a.lo.isLt
  have hhi := a.hi.isLt
  rw [BitVec.toInt_eq_toNat_cond, BitVec.toInt_eq_toNat_cond, toNat_value]
  split <;> split <;> omega

end dce.dts

namespace dce.dts

/-- `uemul`: the product of two unsigned words, from the products of their halves. -/
def uemul (u v : BitVec 32) : unsigned64 :=
  let u1 := u >>> 16
  let u2 := u &&& 0xffff
  let v1 := v >>> 16
  let v2 := v &&& 0xffff
  let temp := u2 * v2
  let lo := temp &&& 0xffff
  let temp := u1 * v2 + (temp >>> 16)
  let hi := temp >>> 16
  let temp := u2 * v1 + (temp &&& 0xffff)
  { lo := lo + ((temp &&& 0xffff) <<< 16), hi := hi + (u1 * v1 + (temp >>> 16)) }

/-- `emul`: the product of two signed words. -/
def emul (u v : BitVec 32) : unsigned64 :=
  let prod := uemul u v
  let prod := if u.slt 0 then { prod with hi := prod.hi - v } else prod
  if v.slt 0 then { prod with hi := prod.hi - u } else prod

/-- `U64IMUL`, `UTCiMul`: the product with a signed word. -/
def U64IMUL (num : unsigned64) (I : BitVec 32) : unsigned64 :=
  let result := uemul num.lo I
  let result := { result with hi := result.hi + num.hi * I }
  if I.slt 0 then { result with hi := result.hi - num.lo } else result

theorem toNat_low16 (x : BitVec 32) : (x &&& 0xffff).toNat = x.toNat % 2 ^ 16 := by
  have hmask : (x &&& 0xffff).toNat = x.toNat / 2 ^ 0 % 2 ^ 16 * 2 ^ 0 := and_mask x.toNat 0 16
  simpa using hmask

theorem toNat_high16 (x : BitVec 32) : (x >>> 16).toNat = x.toNat / 2 ^ 16 := by
  rw [BitVec.toNat_ushiftRight, Nat.shiftRight_eq_div_pow]

theorem mul_halves {a b : ℕ} (ha : a < 2 ^ 16) (hb : b < 2 ^ 16) : a * b ≤ (2 ^ 16 - 1) * (2 ^ 16 - 1) :=
  Nat.mul_le_mul (by omega) (by omega)

theorem halves (u : BitVec 32) : ∃ u1 u2, u1 < 2 ^ 16 ∧ u2 < 2 ^ 16 ∧ u.toNat = u1 * 2 ^ 16 + u2 ∧ u.toNat / 2 ^ 16 = u1 ∧
    u.toNat % 2 ^ 16 = u2 := by
  have hu := u.isLt
  exact ⟨u.toNat / 2 ^ 16, u.toNat % 2 ^ 16, by omega, by omega, by omega, rfl, rfl⟩

theorem partial_products {hh hl lh ll : ℕ} (hhh : hh ≤ (2 ^ 16 - 1) * (2 ^ 16 - 1)) (hhl : hl ≤ (2 ^ 16 - 1) * (2 ^ 16 - 1))
    (hlh : lh ≤ (2 ^ 16 - 1) * (2 ^ 16 - 1)) (hll : ll ≤ (2 ^ 16 - 1) * (2 ^ 16 - 1)) :
    (((hl % 2 ^ 32 + ll % 2 ^ 32 / 2 ^ 16) % 2 ^ 32 / 2 ^ 16 +
        (hh % 2 ^ 32 + (lh % 2 ^ 32 + (hl % 2 ^ 32 + ll % 2 ^ 32 / 2 ^ 16) % 2 ^ 32 % 2 ^ 16) % 2 ^ 32 / 2 ^ 16) % 2 ^ 32) %
          2 ^ 32) * 2 ^ 32 +
      (ll % 2 ^ 32 % 2 ^ 16 +
        (lh % 2 ^ 32 + (hl % 2 ^ 32 + ll % 2 ^ 32 / 2 ^ 16) % 2 ^ 32 % 2 ^ 16) % 2 ^ 32 % 2 ^ 16 * 2 ^ 16 % 2 ^ 32) % 2 ^ 32 =
    hh * 2 ^ 32 + hl * 2 ^ 16 + lh * 2 ^ 16 + ll := by
  have h1 : (hl % 2 ^ 32 + ll % 2 ^ 32 / 2 ^ 16) % 2 ^ 32 = hl + ll / 2 ^ 16 := by omega
  have h2 : (lh % 2 ^ 32 + (hl + ll / 2 ^ 16) % 2 ^ 16) % 2 ^ 32 = lh + (hl + ll / 2 ^ 16) % 2 ^ 16 := by omega
  rw [h1, h2]
  omega

variable (u v : BitVec 32)

theorem toNat_uemul : (uemul u v).value.toNat = u.toNat * v.toNat := by
  obtain ⟨u1, u2, hu1, hu2, hu, hudiv, humod⟩ := halves u
  obtain ⟨v1, v2, hv1, hv2, hv, hvdiv, hvmod⟩ := halves v
  rw [toNat_value, uemul]
  simp only [BitVec.toNat_add, BitVec.toNat_mul, toNat_low16, toNat_high16, BitVec.toNat_shiftLeft, Nat.shiftLeft_eq, hudiv,
    humod, hvdiv, hvmod]
  rw [partial_products (mul_halves hu1 hv1) (mul_halves hu1 hv2) (mul_halves hu2 hv1) (mul_halves hu2 hv2), hu, hv]
  ring

theorem value_mk_sub (hi lo h : BitVec 32) :
    (unsigned64.mk (hi - h) lo).value = (unsigned64.mk hi lo).value - U64SET64 h 0 := by
  have hadd := value_hi_add ⟨hi - h, lo⟩ h
  rw [BitVec.sub_add_cancel] at hadd
  exact (BitVec.add_sub_cancel _ _).symm.trans (congrArg (· - U64SET64 h 0) hadd.symm)

theorem value_mk_add (hi lo h : BitVec 32) :
    (unsigned64.mk (hi + h) lo).value = (unsigned64.mk hi lo).value + U64SET64 h 0 :=
  value_hi_add ⟨hi, lo⟩ h

theorem U64SET64_zero (h : BitVec 32) : U64SET64 h 0 = BitVec.ofInt 64 (h.toInt * 2 ^ 32) := by
  have hh := h.isLt
  have hzero : (0 : BitVec 32).toNat = 0 := rfl
  apply BitVec.eq_of_toNat_eq
  rw [toNat_U64SET64, BitVec.toNat_ofInt, BitVec.toInt_eq_toNat_cond, hzero]
  split <;> omega

theorem value_uemul : (uemul u v).value = BitVec.ofInt 64 (u.toNat * v.toNat) := by
  apply BitVec.eq_of_toNat_eq
  rw [toNat_uemul, BitVec.toNat_ofInt]
  have h := (uemul u v).value.isLt
  rw [toNat_uemul] at h
  norm_cast
  exact (Nat.mod_eq_of_lt h).symm

theorem toNat_eq_toInt (u : BitVec 32) : (u.toNat : ℤ) = u.toInt + if u.slt 0 then 2 ^ 32 else 0 := by
  have hu := u.isLt
  have hneg : u.slt 0 = decide (2 ^ 31 ≤ u.toNat) := by
    rw [BitVec.ofNat_eq_ofNat, BitVec.slt_zero_eq_msb, BitVec.msb_eq_decide]
  rw [BitVec.toInt_eq_toNat_cond, hneg]
  simp only [decide_eq_true_eq]
  split <;> split <;> omega

theorem ofInt_sub (x y : ℤ) : BitVec.ofInt 64 (x - y) = BitVec.ofInt 64 x - BitVec.ofInt 64 y := by
  rw [Int.sub_eq_add_neg, BitVec.ofInt_add, BitVec.ofInt_neg, BitVec.sub_eq_add_neg]

theorem ofInt_wrap {x y : ℤ} (k : ℤ) (h : x = y + k * 2 ^ 64) : BitVec.ofInt 64 x = BitVec.ofInt 64 y := by
  apply BitVec.eq_of_toInt_eq
  rw [BitVec.toInt_ofInt, BitVec.toInt_ofInt, h]
  exact Int.add_mul_bmod_self_right ..

theorem value_emul : (emul u v).value = BitVec.ofInt 64 (u.toInt * v.toInt) := by
  have hu := toNat_eq_toInt u
  have hv := toNat_eq_toInt v
  have hprod : (unsigned64.mk (uemul u v).hi (uemul u v).lo).value = BitVec.ofInt 64 (u.toNat * v.toNat) := value_uemul u v
  rw [emul]
  cases hneg : u.slt 0 <;> cases hneg' : v.slt 0 <;>
    simp only [hneg, hneg', ↓reduceIte, Bool.false_eq_true, add_zero, value_mk_sub, hprod, U64SET64_zero, ← ofInt_sub,
      hu, hv]
  · exact ofInt_wrap 0 (by ring)
  · exact ofInt_wrap 0 (by ring)
  · exact ofInt_wrap 1 (by ring)

theorem U64SET64_mul (h I : BitVec 32) : U64SET64 (h * I) 0 = BitVec.ofInt 64 (h.toInt * I.toInt * 2 ^ 32) := by
  have hbmod := Int.bmod_add_bdiv (h.toInt * I.toInt) (2 ^ 32)
  rw [U64SET64_zero, BitVec.toInt_mul]
  apply ofInt_wrap (-(h.toInt * I.toInt).bdiv (2 ^ 32))
  push_cast at hbmod
  linear_combination 2 ^ 32 * hbmod

theorem value_U64IMUL (num : unsigned64) (I : BitVec 32) :
    (U64IMUL num I).value = BitVec.ofInt 64 (num.value.toInt * I.toInt) := by
  have hI := toNat_eq_toInt I
  have hprod : (unsigned64.mk (uemul num.lo I).hi (uemul num.lo I).lo).value = BitVec.ofInt 64 (num.lo.toNat * I.toNat) :=
    value_uemul num.lo I
  have hlo := toNat_eq_toInt num.lo
  rw [toInt_value, U64IMUL]
  cases hneg : I.slt 0 <;> simp only [hneg, ↓reduceIte, Bool.false_eq_true, add_zero] at hI ⊢
  · rw [value_mk_add, hprod, U64SET64_mul, ← BitVec.ofInt_add, hI]
    exact ofInt_wrap 0 (by ring)
  · rw [value_mk_sub, value_mk_add, hprod, U64SET64_mul, ← BitVec.ofInt_add, U64SET64_zero, ← ofInt_sub, hI]
    split at hlo
    · exact ofInt_wrap 1 (by linear_combination 2 ^ 32 * hlo)
    · exact ofInt_wrap 0 (by linear_combination 2 ^ 32 * hlo)

end dce.dts
