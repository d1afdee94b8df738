import Dce.Dts.Middle

namespace dce.dts

theorem IsUTCneg_iff {v : UTCValue} : IsUTCneg v = true ↔ v.toInt < 0 := by
  rw [IsUTCneg, BitVec.msb_eq_toInt, decide_eq_true_eq]

theorem words_value (v : UTCValue) : (unsigned64.mk v.hi v.lo).value = v := U64SET64_hi_lo v

theorem UTCiMul_eq (num : UTCValue) (I : BitVec 32) : UTCiMul num I = BitVec.ofInt 64 (num.toInt * I.toInt) := by
  rw [UTCiMul, value_U64IMUL, words_value]

theorem toInt_words (v : UTCValue) : v.toInt = v.hi.toInt * 2 ^ 32 + v.lo.toNat := by
  have h := toInt_value ⟨v.hi, v.lo⟩
  rwa [words_value] at h

theorem slt_zero_iff (v : BitVec 32) : v.slt 0 = true ↔ v.toInt < 0 := by
  rw [BitVec.slt, decide_eq_true_eq, BitVec.ofNat_eq_ofNat, BitVec.toInt_zero]

theorem toInt_absfactor (factor : BitVec 32) :
    (if factor.slt 0 then -factor else factor).toInt = |factor.toInt| ∨
      (factor.toInt = -2 ^ 31 ∧ (if factor.slt 0 then -factor else factor).toInt = -2 ^ 31) := by
  have hlow : -2 ^ 31 ≤ factor.toInt := BitVec.le_toInt factor
  split
  case isTrue hneg =>
    rw [slt_zero_iff] at hneg
    rw [BitVec.toInt_neg, abs_of_neg hneg]
    by_cases hleast : factor.toInt = -2 ^ 31
    · right
      rw [hleast]
      exact ⟨rfl, rfl⟩
    · exact Or.inl (Int.bmod_eq_of_le (by omega) (by omega))
  case isFalse hneg =>
    rw [slt_zero_iff] at hneg
    exact Or.inl (abs_of_nonneg (by omega)).symm

theorem toNat_ofInt_of_nonneg {v : ℤ} (hlow : 0 ≤ v) (hhigh : v < 2 ^ 64) : ((BitVec.ofInt 64 v).toNat : ℤ) = v := by
  rw [BitVec.toNat_ofInt]
  omega

theorem mulinacc_spec {inacc : UTCValue} (hle : inacc.toNat ≤ 2 ^ 48 - 1) (factor absfactor : BitVec 32)
    (habs : absfactor.toInt = |factor.toInt| ∨ (factor.toInt = -2 ^ 31 ∧ absfactor.toInt = -2 ^ 31)) {resultinacc : UTCValue}
    (hresult : resultinacc = if (emul inacc.hi absfactor).hi ≠ 0 ∨ 0xffff < (emul inacc.hi absfactor).lo
      then 0xFFFFFFFFFFFFFFFF else UTCiMul inacc absfactor) :
    IsInfiniteInacc resultinacc = true ∨ (resultinacc.toNat : ℤ) = |factor.toInt| * inacc.toNat := by
  have hlow : -2 ^ 31 ≤ factor.toInt := BitVec.le_toInt factor
  have hhigh : factor.toInt < 2 ^ 31 := BitVec.toInt_lt
  have hlo := inacc.lo.isLt
  have hnat : inacc.toNat = inacc.hi.toNat * 2 ^ 32 + inacc.lo.toNat := by
    rw [← toNat_U64SET64, U64SET64_hi_lo]
  have hhi : inacc.hi.toNat ≤ 0xffff := by omega
  have hhiInt : inacc.hi.toInt = inacc.hi.toNat := by
    rw [BitVec.toInt_eq_toNat_cond]
    split <;> omega
  have hinaccInt : inacc.toInt = inacc.toNat := by
    rw [BitVec.toInt_eq_toNat_cond]
    split <;> omega
  split at hresult
  case isTrue =>
    left
    rw [hresult]
    decide
  case isFalse hsmall =>
    have hproduct : (emul inacc.hi absfactor).value.toNat ≤ 0xffff := by
      push Not at hsmall
      obtain ⟨hzero, hlo⟩ := hsmall
      rw [toNat_value, hzero]
      exact (Nat.zero_add _).le.trans (BitVec.not_lt.mp hlo)
    rw [value_emul, hhiInt] at hproduct
    rw [UTCiMul_eq, hinaccInt] at hresult
    obtain habs | ⟨hleast, habs⟩ := habs
    · right
      have hnonneg := abs_nonneg factor.toInt
      have hbound : |factor.toInt| ≤ 2 ^ 31 := abs_le.mpr ⟨hlow, hhigh.le⟩
      have hhiprod : (inacc.hi.toNat : ℤ) * |factor.toInt| ≤ 0xffff * 2 ^ 31 :=
        mul_le_mul (by exact_mod_cast hhi) hbound hnonneg (by norm_num)
      have hloprod : (inacc.lo.toNat : ℤ) * |factor.toInt| ≤ (2 ^ 32 - 1) * 2 ^ 31 :=
        mul_le_mul (by omega) hbound hnonneg (by norm_num)
      have hpos : 0 ≤ (inacc.toNat : ℤ) * |factor.toInt| := by positivity
      have hhipos : 0 ≤ (inacc.hi.toNat : ℤ) * |factor.toInt| := by positivity
      have hsplit : (inacc.toNat : ℤ) * |factor.toInt| =
          inacc.hi.toNat * |factor.toInt| * 2 ^ 32 + inacc.lo.toNat * |factor.toInt| := by
        rw [hnat]
        push_cast
        ring
      have hfit := toNat_ofInt_of_nonneg hhipos (by omega)
      rw [habs] at hproduct hresult
      rw [hresult, toNat_ofInt_of_nonneg hpos (by omega), mul_comm]
    · rw [habs] at hproduct hresult
      rw [hleast, hresult, IsInfiniteInacc_iff]
      rw [BitVec.toNat_ofInt] at hproduct ⊢
      have hzero : inacc.hi.toNat = 0 := by omega
      rw [show |(-2 ^ 31 : ℤ)| = 2 ^ 31 by norm_num]
      omega

theorem toInt_cases (v : BitVec 32) :
    (v.toInt = v.toNat ∧ v.toNat < 2 ^ 31) ∨ (v.toInt = v.toNat - 2 ^ 32 ∧ 2 ^ 31 ≤ v.toNat) := by
  rw [BitVec.toInt_eq_toNat_cond]
  split <;> omega

theorem high_product_fits {hi factor : BitVec 32}
    (hfits : ¬ ((emul hi factor).hi.slt (-1) ∨ BitVec.slt 0 (emul hi factor).hi ∨
      ((emul hi factor).hi = 0 ∧ (emul hi factor).lo.slt 0) ∨ ((emul hi factor).hi = -1 ∧ ¬ (emul hi factor).lo.slt 0))) :
    -2 ^ 31 ≤ hi.toInt * factor.toInt ∧ hi.toInt * factor.toInt < 2 ^ 31 := by
  have hinrange : InRange (hi.toInt * factor.toInt) := by
    have habs : |hi.toInt * factor.toInt| ≤ 2 ^ 31 * 2 ^ 31 := by
      rw [abs_mul]
      exact mul_le_mul (abs_le.mpr ⟨BitVec.le_toInt hi, BitVec.toInt_lt.le⟩)
        (abs_le.mpr ⟨BitVec.le_toInt factor, BitVec.toInt_lt.le⟩) (abs_nonneg _) (by norm_num)
    rw [abs_le] at habs
    exact ⟨by omega, by omega⟩
  have hvalue := toInt_value (emul hi factor)
  rw [value_emul, toInt_ofInt_of_inRange hinrange] at hvalue
  push Not at hfits
  obtain ⟨hmin, hmax, hzero, hminus⟩ := hfits
  have hone : (-1#32 : BitVec 32).toInt = -1 := by decide
  simp only [BitVec.slt, decide_eq_true_eq, BitVec.ofNat_eq_ofNat, BitVec.toInt_zero, ← BitVec.toInt_inj, hone, Bool.not_eq_true,
    decide_eq_false_iff_not] at hmin hmax hzero hminus
  obtain ⟨hlo, hlt⟩ | ⟨hlo, hlt⟩ := toInt_cases (emul hi factor).lo <;> omega

theorem multime_time {time : UTCValue} {factor : BitVec 32}
    (hfits : ¬ ((emul time.hi factor).hi.slt (-1) ∨ BitVec.slt 0 (emul time.hi factor).hi ∨
      ((emul time.hi factor).hi = 0 ∧ (emul time.hi factor).lo.slt 0) ∨
      ((emul time.hi factor).hi = -1 ∧ ¬ (emul time.hi factor).lo.slt 0)))
    (hsign : (!IsUTCneg time ^^ !factor.slt 0 ^^ IsUTCneg (UTCiMul time factor)) = false) :
    (UTCiMul time factor).toInt = factor.toInt * time.toInt := by
  obtain ⟨hhilow, hhihigh⟩ := high_product_fits hfits
  have hloprod : |(time.lo.toNat : ℤ) * factor.toInt| ≤ 2 ^ 32 * 2 ^ 31 := by
    have hlo := time.lo.isLt
    rw [abs_mul]
    exact mul_le_mul (abs_le.mpr ⟨by omega, by omega⟩) (abs_le.mpr ⟨BitVec.le_toInt factor, BitVec.toInt_lt.le⟩)
      (abs_nonneg _) (by norm_num)
  rw [abs_le] at hloprod
  have hproduct : factor.toInt * time.toInt = time.hi.toInt * factor.toInt * 2 ^ 32 + time.lo.toNat * factor.toInt := by
    rw [toInt_words time]
    ring
  have htime : (IsUTCneg time = true ↔ time.toInt < 0) := IsUTCneg_iff
  have hfactor : (factor.slt 0 = true ↔ factor.toInt < 0) := slt_zero_iff factor
  have hresult : (IsUTCneg (UTCiMul time factor) = true ↔ (UTCiMul time factor).toInt < 0) := IsUTCneg_iff
  rw [UTCiMul_eq, mul_comm] at hresult hsign ⊢
  by_cases hinrange : InRange (factor.toInt * time.toInt)
  · exact toInt_ofInt_of_inRange hinrange
  exfalso
  obtain ⟨hlow, hhigh⟩ := toInt_inRange (BitVec.ofInt 64 (factor.toInt * time.toInt))
  obtain hfar | hfar := far_of_not_inRange hinrange
  · -- the product is too large: its factors have one sign and the result is negative
    have hneg := hresult.mpr (by omega)
    have hpos : 0 < factor.toInt * time.toInt := by omega
    rw [hneg] at hsign
    obtain ⟨hf, ht⟩ | ⟨hf, ht⟩ := mul_pos_iff.mp hpos
    · rw [Bool.eq_false_iff.mpr (htime.not.mpr ht.not_gt), Bool.eq_false_iff.mpr (hfactor.not.mpr hf.not_gt)] at hsign
      exact absurd hsign (by decide)
    · rw [htime.mpr ht, hfactor.mpr hf] at hsign
      exact absurd hsign (by decide)
  · have hneg : IsUTCneg (BitVec.ofInt 64 (factor.toInt * time.toInt)) = false :=
      Bool.eq_false_iff.mpr (hresult.not.mpr (by omega))
    have hprodneg : factor.toInt * time.toInt < 0 := by omega
    rw [hneg] at hsign
    obtain ⟨hf, ht⟩ | ⟨hf, ht⟩ := mul_neg_iff.mp hprodneg
    · rw [htime.mpr ht, Bool.eq_false_iff.mpr (hfactor.not.mpr hf.not_gt)] at hsign
      exact absurd hsign (by decide)
    · rw [Bool.eq_false_iff.mpr (htime.not.mpr ht.not_gt), hfactor.mpr hf] at hsign
      exact absurd hsign (by decide)

theorem emul_zero (u : BitVec 32) : emul u 0 = ⟨0, 0⟩ := by
  have hvalue := value_emul u 0
  have hnat := toNat_value (emul u 0)
  have hzero : BitVec.ofInt 64 (u.toInt * (0 : BitVec 32).toInt) = 0 := by simp
  rw [hvalue, hzero] at hnat
  have hhi : (emul u 0).hi = 0 := BitVec.eq_of_toNat_eq (by simp at hnat ⊢; omega)
  have hlo : (emul u 0).lo = 0 := BitVec.eq_of_toNat_eq (by simp at hnat ⊢; omega)
  calc emul u 0 = ⟨(emul u 0).hi, (emul u 0).lo⟩ := rfl
    _ = ⟨0, 0⟩ := by rw [hhi, hlo]

theorem UTCiMul_zero (num : UTCValue) : UTCiMul num 0 = 0 := by simp [UTCiMul_eq]

end dce.dts
