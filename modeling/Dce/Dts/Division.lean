import Dce.Lib.LongDivision
import Dce.Dts.Middle

namespace dce.dts

open lib

/-- The first loop of `uediv`: the divisor is shifted until its highest bit is set, and the dividend with it, unless a bit
    of the dividend goes out. A divisor other than zero needs 31 shifts at most. -/
def normalize : ℕ → BitVec 32 → unsigned64 → Option (BitVec 32 × unsigned64)
  | 0, v, u => some (v, u)
  | fuel + 1, v, u =>
    if v &&& SIGN = 0 then
      if u.hi &&& SIGN ≠ 0 then none
      else normalize fuel (v <<< 1) { hi := (u.hi <<< 1) ||| (u.lo >>> 31), lo := u.lo <<< 1 }
    else some (v, u)

/-- The last loop of `uediv` takes the shifts of the divisor back from the remainder. -/
def unnormalize : ℕ → BitVec 32 → BitVec 32 → BitVec 32
  | 0, _, uhigh => uhigh
  | fuel + 1, v, uhigh => if v &&& SIGN = 0 then unnormalize fuel (v <<< 1) (uhigh >>> 1) else uhigh

/-- The loop that counts a trial divisor down, with the next digit of the dividend. -/
def lowerTrial (uhigh v1 v2 u trial : BitVec 32) : BitVec 32 :=
  if (uhigh - v1 * trial) &&& 0xffff0000 = 0 ∧ ((uhigh - v1 * trial) <<< 16) + u < v2 * trial then
    lowerTrial uhigh v1 v2 u (trial - 1)
  else trial
  termination_by trial.toNat
  decreasing_by
    rename_i h
    have hzero : trial ≠ 0 := by
      rintro rfl
      simp at h
    have hpos : trial.toNat ≠ 0 := fun h0 => hzero (BitVec.eq_of_toNat_eq h0)
    have hlt := trial.isLt
    rw [BitVec.toNat_sub]
    simp only [BitVec.ofNat_eq_ofNat, BitVec.toNat_ofNat]
    omega

/-- The steps D3 to D5 of `uediv`, which it makes for each of the two digits of the quotient: the digit and what is left of
    the three digits `u1`, `u2` and `u3` of the dividend. -/
def uedivDigit (v1 v2 uhigh u1 u2 u3 : BitVec 32) : BitVec 32 × BitVec 32 × BitVec 32 :=
  let trial := if u1 = v1 then 0xffff else uhigh / v1
  let trial := lowerTrial uhigh v1 v2 u3 trial
  let temp := v2 * trial
  let u3 := u3 - (temp &&& 0xffff)
  let borrow := u3 &&& 0xffff0000 ≠ 0
  let u2 := if borrow then u2 - 1 else u2
  let u3 := if borrow then u3 &&& 0xffff else u3
  (trial, (u2 - (v1 * trial + (temp >>> 16))) &&& 0xffff, u3)

/-- `uediv`: the quotient and the remainder, `none` for an overflow or a division by zero. -/
def uediv (dividend : unsigned64) (divisor : BitVec 32) : Option (BitVec 32 × BitVec 32) :=
  if divisor = 0 then none
  else
    match normalize 32 divisor dividend with
    | none => none
    | some (v, u) =>
      let v1 := v >>> 16
      let v2 := v &&& 0xffff
      if v ≤ u.hi then none
      else
        let (q1, u2, u3) := uedivDigit v1 v2 u.hi (u.hi >>> 16) (u.hi &&& 0xffff) (u.lo >>> 16)
        let (q2, u3, u4) := uedivDigit v1 v2 ((u2 <<< 16) + u3) u2 u3 (u.lo &&& 0xffff)
        some ((q1 <<< 16) + q2, unnormalize 32 divisor ((u3 <<< 16) + u4))

/-- What `ediv` returns and stores. -/
structure Quotient where
  overflow : Bool
  quot : BitVec 32
  remd : BitVec 32
  deriving DecidableEq, Repr

/-- `ediv`, where a quotient that `uediv` has not stored is `indeterminate`. -/
def ediv (indeterminate : BitVec 32 × BitVec 32) (dividend : unsigned64) (divisor : BitVec 32) : Quotient :=
  let negDividend : Bool := decide (dividend.hi &&& SIGN ≠ 0)
  let tempDividend : unsigned64 :=
    if negDividend then { lo := -dividend.lo, hi := if -dividend.lo ≠ 0 then ~~~dividend.hi else -dividend.hi } else dividend
  let negDivisor : Bool := divisor.slt 0
  let tempDivisor := if negDivisor then -divisor else divisor
  let stored := uediv tempDividend tempDivisor
  let (quotient, remainder) := stored.getD indeterminate
  let remd := if negDividend then -remainder else remainder
  if stored = none then { overflow := true, quot := quotient, remd }
  else if negDivisor ^^ negDividend then { overflow := (0 : BitVec 32).slt (-quotient), quot := -quotient, remd }
  else { overflow := quotient.slt 0, quot := quotient, remd }

theorem sign_eq_zero_iff (x : BitVec 32) : x &&& SIGN = 0 ↔ x.toNat < 2 ^ 31 := by
  rw [← not_iff_not, ← ne_eq, sign_iff, msb_iff, Nat.not_lt]

theorem toNat_shiftLeft_one {x : BitVec 32} (hx : x.toNat < 2 ^ 31) : (x <<< 1).toNat = x.toNat * 2 := by
  rw [BitVec.toNat_shiftLeft, Nat.shiftLeft_eq]
  omega

theorem value_shiftLeft_one {u : unsigned64} (hu : u.hi.toNat < 2 ^ 31) :
    (unsigned64.mk ((u.hi <<< 1) ||| (u.lo >>> 31)) (u.lo <<< 1)).value.toNat = u.value.toNat * 2 := by
  have hlo := u.lo.isLt
  have htop : (u.lo >>> 31).toNat = u.lo.toNat / 2 ^ 31 := by rw [BitVec.toNat_ushiftRight, Nat.shiftRight_eq_div_pow]
  have htoplt : u.lo.toNat / 2 ^ 31 < 2 ^ 1 := by omega
  have hor : ((u.hi <<< 1) ||| (u.lo >>> 31)).toNat = u.hi.toNat * 2 + u.lo.toNat / 2 ^ 31 := by
    rw [BitVec.toNat_or, toNat_shiftLeft_one hu, htop]
    have hshift := Nat.shiftLeft_add_eq_or_of_lt htoplt u.hi.toNat
    rw [Nat.shiftLeft_eq, Nat.pow_one] at hshift
    exact hshift.symm
  have hlow : (u.lo <<< 1).toNat = u.lo.toNat * 2 % 2 ^ 32 := by rw [BitVec.toNat_shiftLeft, Nat.shiftLeft_eq]
  rw [toNat_value, toNat_value, hor, hlow]
  omega

theorem normalize_spec {fuel : ℕ} {v : BitVec 32} {u : unsigned64} (hfuel : 2 ^ 31 ≤ v.toNat * 2 ^ fuel) :
    (∀ v' u', normalize fuel v u = some (v', u') → ∃ k, v'.toNat = v.toNat * 2 ^ k ∧ u'.value.toNat = u.value.toNat * 2 ^ k ∧
      2 ^ 31 ≤ v'.toNat) ∧
      (normalize fuel v u = none → v.toNat * 2 ^ 32 ≤ u.value.toNat) := by
  induction fuel generalizing v u with
  | zero =>
    refine ⟨fun v' u' h => ?_, fun h => nomatch h⟩
    obtain ⟨rfl, rfl⟩ := Prod.mk.inj (Option.some.inj h)
    exact ⟨0, by simp, by simp, by simpa using hfuel⟩
  | succ fuel ih =>
    rw [normalize]
    by_cases hsmall : v &&& SIGN = 0
    · have hv := (sign_eq_zero_iff v).mp hsmall
      rw [if_pos hsmall]
      by_cases hout : u.hi &&& SIGN = 0
      · have hu := (sign_eq_zero_iff u.hi).mp hout
        rw [if_neg (not_not.mpr hout)]
        have hnext := @ih (v <<< 1) { hi := (u.hi <<< 1) ||| (u.lo >>> 31), lo := u.lo <<< 1 } (by
          rw [toNat_shiftLeft_one hv, Nat.mul_assoc, ← Nat.pow_succ']
          exact hfuel)
        rw [toNat_shiftLeft_one hv, value_shiftLeft_one hu] at hnext
        obtain ⟨hsome, hnone⟩ := hnext
        refine ⟨fun v' u' h => ?_, fun h => ?_⟩
        · obtain ⟨k, hv', hu', hhigh⟩ := hsome v' u' h
          refine ⟨k + 1, ?_, ?_, hhigh⟩
          · rw [hv', Nat.pow_succ']
            ring
          · rw [hu', Nat.pow_succ']
            ring
        · have hle := hnone h
          linarith
      · rw [if_pos hout]
        refine ⟨fun v' u' h => (nomatch h), fun _ => ?_⟩
        rw [sign_eq_zero_iff, Nat.not_lt] at hout
        rw [toNat_value]
        calc v.toNat * 2 ^ 32 ≤ u.hi.toNat * 2 ^ 32 := Nat.mul_le_mul_right _ (hv.le.trans hout)
          _ ≤ u.hi.toNat * 2 ^ 32 + u.lo.toNat := Nat.le_add_right _ _
    · rw [if_neg hsmall]
      refine ⟨fun v' u' h => ?_, fun h => (nomatch h)⟩
      obtain ⟨rfl, rfl⟩ := Prod.mk.inj (Option.some.inj h)
      rw [sign_eq_zero_iff] at hsmall
      exact ⟨0, by simp, by simp, by omega⟩

theorem unnormalize_spec {fuel k r : ℕ} {v uhigh : BitVec 32} (hfuel : k ≤ fuel) (hlow : 2 ^ 31 ≤ v.toNat * 2 ^ k)
    (hhigh : v.toNat * 2 ^ k < 2 ^ 32) (hrem : uhigh.toNat = r * 2 ^ k) : (unnormalize fuel v uhigh).toNat = r := by
  induction k generalizing fuel v uhigh with
  | zero =>
    have hdone : ¬ v &&& SIGN = 0 := by
      rw [sign_eq_zero_iff]
      omega
    cases fuel with
    | zero => simpa [unnormalize] using hrem
    | succ fuel =>
      rw [unnormalize, if_neg hdone]
      simpa using hrem
  | succ k ih =>
    obtain ⟨fuel, rfl⟩ : ∃ fuel', fuel = fuel' + 1 := ⟨fuel - 1, by omega⟩
    have hv : v.toNat < 2 ^ 31 := by
      have hdouble : v.toNat * 2 ≤ v.toNat * 2 ^ (k + 1) := by
        rw [Nat.pow_succ']
        exact Nat.mul_le_mul_left _ (Nat.le_mul_of_pos_right 2 (Nat.two_pow_pos k))
      omega
    rw [unnormalize, if_pos ((sign_eq_zero_iff v).mpr hv)]
    have hshift : v.toNat * 2 ^ (k + 1) = (v <<< 1).toNat * 2 ^ k := by
      rw [toNat_shiftLeft_one hv, Nat.pow_succ']
      ring
    rw [hshift] at hlow hhigh
    refine ih (by omega) hlow hhigh ?_
    rw [BitVec.toNat_ushiftRight, Nat.shiftRight_eq_div_pow, hrem, Nat.pow_succ, ← Nat.mul_assoc]
    exact Nat.mul_div_cancel _ (by norm_num)

theorem high16_eq_zero_iff (x : BitVec 32) : x &&& 0xffff0000 = 0 ↔ x.toNat < 2 ^ 16 := by
  have hmask : (x &&& 0xffff0000).toNat = x.toNat / 2 ^ 16 % 2 ^ 16 * 2 ^ 16 := and_mask x.toNat 16 16
  have hx := x.isLt
  rw [← BitVec.toNat_inj, hmask]
  simp only [BitVec.ofNat_eq_ofNat, BitVec.toNat_ofNat]
  omega

/-- The digits of the divisor and of what is to be divided by it, as `uediv` has them for one digit of the quotient. -/
structure Digits (v1 v2 uhigh u1 u2 u3 : BitVec 32) : Prop where
  leading : 2 ^ 15 ≤ v1.toNat ∧ v1.toNat < 2 ^ 16
  second : v2.toNat < 2 ^ 16
  high : uhigh.toNat = u1.toNat * 2 ^ 16 + u2.toNat
  digit2 : u2.toNat < 2 ^ 16
  digit3 : u3.toNat < 2 ^ 16
  fits : uhigh.toNat < v1.toNat * 2 ^ 16 + v2.toNat

theorem toNat_rest {v1 uhigh trial : BitVec 32} (hmul : v1.toNat * trial.toNat ≤ uhigh.toNat) :
    (uhigh - v1 * trial).toNat = uhigh.toNat - v1.toNat * trial.toNat := by
  have huhigh := uhigh.isLt
  have hproduct : (v1 * trial).toNat = v1.toNat * trial.toNat := BitVec.toNat_mul_of_lt (by omega)
  rw [BitVec.toNat_sub_of_le, hproduct]
  rwa [BitVec.le_def, hproduct]

theorem toNat_product {v2 trial : BitVec 32} (hv2 : v2.toNat < 2 ^ 16) (htrial : trial.toNat < 2 ^ 16) :
    (v2 * trial).toNat = v2.toNat * trial.toNat := by
  have hbound := mul_halves hv2 htrial
  exact BitVec.toNat_mul_of_lt (by omega)

theorem lowerTrial_condition_iff {v1 v2 uhigh u1 u2 u3 trial : BitVec 32} (hd : Digits v1 v2 uhigh u1 u2 u3)
    (htrial : trial.toNat < 2 ^ 16) (hmul : v1.toNat * trial.toNat ≤ uhigh.toNat) :
    ((uhigh - v1 * trial) &&& 0xffff0000 = 0 ∧ ((uhigh - v1 * trial) <<< 16) + u3 < v2 * trial) ↔
      digit (2 ^ 16) v1.toNat v2.toNat uhigh.toNat u3.toNat < trial.toNat := by
  obtain ⟨⟨hv1, -⟩, hv2, -, -, hu3, -⟩ := hd
  have hvpos : 0 < v1.toNat * 2 ^ 16 + v2.toNat := by omega
  rw [high16_eq_zero_iff, toNat_rest hmul, BitVec.lt_def, toNat_product hv2 htrial]
  by_cases hshort : uhigh.toNat - v1.toNat * trial.toNat < 2 ^ 16
  · have hsum : (((uhigh - v1 * trial) <<< 16) + u3).toNat = (uhigh.toNat - v1.toNat * trial.toNat) * 2 ^ 16 + u3.toNat := by
      rw [BitVec.toNat_add, BitVec.toNat_shiftLeft, Nat.shiftLeft_eq, toNat_rest hmul]
      omega
    rw [digit_lt_trial_iff hvpos hmul, hsum, and_iff_right hshort]
  · have hfits : trial.toNat ≤ digit (2 ^ 16) v1.toNat v2.toNat uhigh.toNat u3.toNat :=
      le_digit_of_rest_large hvpos hv2 htrial.le hmul (Nat.not_lt.mp hshort)
    exact iff_of_false (fun hcond => hshort hcond.1) hfits.not_gt

theorem lowerTrial_spec {v1 v2 uhigh u1 u2 u3 trial : BitVec 32} (hd : Digits v1 v2 uhigh u1 u2 u3)
    (htrial : trial.toNat < 2 ^ 16) (hmul : v1.toNat * trial.toNat ≤ uhigh.toNat)
    (hle : digit (2 ^ 16) v1.toNat v2.toNat uhigh.toNat u3.toNat ≤ trial.toNat) :
    (lowerTrial uhigh v1 v2 u3 trial).toNat = digit (2 ^ 16) v1.toNat v2.toNat uhigh.toNat u3.toNat := by
  induction h : trial.toNat generalizing trial with
  | zero =>
    rw [lowerTrial, if_neg]
    · omega
    · rw [lowerTrial_condition_iff hd htrial hmul]
      omega
  | succ n ih =>
    rw [lowerTrial]
    by_cases hlarge : digit (2 ^ 16) v1.toNat v2.toNat uhigh.toNat u3.toNat < trial.toNat
    · rw [if_pos ((lowerTrial_condition_iff hd htrial hmul).mpr hlarge)]
      have hpred : (trial - 1).toNat = n := by
        rw [BitVec.toNat_sub_of_le, h]
        · rfl
        · rw [BitVec.le_def, h]
          exact Nat.succ_le_succ (Nat.zero_le n)
      have hless : v1.toNat * n ≤ v1.toNat * trial.toNat := Nat.mul_le_mul_left _ (by omega)
      rw [← hpred] at hless
      exact ih (by omega) (hless.trans hmul) (by omega) hpred
    · rw [if_neg (mt (lowerTrial_condition_iff hd htrial hmul).mp hlarge)]
      omega

theorem multiply_subtract {v1 v2 uhigh u1 u2 u3 q : BitVec 32} (hd : Digits v1 v2 uhigh u1 u2 u3) (hq : q.toNat < 2 ^ 16)
    (hle : q.toNat * (v1.toNat * 2 ^ 16 + v2.toNat) ≤ uhigh.toNat * 2 ^ 16 + u3.toNat)
    (hlt : uhigh.toNat * 2 ^ 16 + u3.toNat - q.toNat * (v1.toNat * 2 ^ 16 + v2.toNat) < 2 ^ 32) {r1 r2 : BitVec 32}
    (hr1 : r1 = ((if (u3 - ((v2 * q) &&& 0xffff)) &&& 0xffff0000 ≠ 0 then u2 - 1 else u2) -
      (v1 * q + ((v2 * q) >>> 16))) &&& 0xffff)
    (hr2 : r2 = if (u3 - ((v2 * q) &&& 0xffff)) &&& 0xffff0000 ≠ 0 then (u3 - ((v2 * q) &&& 0xffff)) &&& 0xffff
      else u3 - ((v2 * q) &&& 0xffff)) :
    r1.toNat < 2 ^ 16 ∧ r2.toNat < 2 ^ 16 ∧
      r1.toNat * 2 ^ 16 + r2.toNat = uhigh.toNat * 2 ^ 16 + u3.toNat - q.toNat * (v1.toNat * 2 ^ 16 + v2.toNat) := by
  obtain ⟨⟨-, hv1lt⟩, hv2, hhigh, hu2, hu3, -⟩ := hd
  have huhigh := uhigh.isLt
  have hlow := toNat_product hv2 hq
  have hlowlt := (v2 * q).isLt
  have hlead := toNat_product hv1lt hq
  have hleadle := mul_halves hv1lt hq
  have hmul : q.toNat * (v1.toNat * 2 ^ 16 + v2.toNat) = v1.toNat * q.toNat * 2 ^ 16 + v2.toNat * q.toNat := by ring
  rw [hmul, ← hlow] at hle hlt ⊢
  have hlast : (u3 - ((v2 * q) &&& 0xffff)).toNat = (2 ^ 32 - (v2 * q).toNat % 2 ^ 16 + u3.toNat) % 2 ^ 32 := by
    rw [BitVec.toNat_sub, toNat_low16]
  have hborrow : (u3 - ((v2 * q) &&& 0xffff)) &&& 0xffff0000 = 0 ↔ (v2 * q).toNat % 2 ^ 16 ≤ u3.toNat := by
    rw [high16_eq_zero_iff, hlast]
    omega
  generalize (v2 * q) = temp at *
  have htemp : (v1 * q + (temp >>> 16)).toNat = (v1.toNat * q.toNat + temp.toNat / 2 ^ 16) % 2 ^ 32 := by
    rw [BitVec.toNat_add, hlead, toNat_high16]
  by_cases hno : temp.toNat % 2 ^ 16 ≤ u3.toNat
  · rw [if_neg (not_not.mpr (hborrow.mpr hno))] at hr1 hr2
    rw [hr1, hr2, toNat_low16, BitVec.toNat_sub, htemp, hlast]
    generalize v1.toNat * q.toNat = lead at *
    omega
  · rw [if_pos (mt hborrow.mp hno)] at hr1 hr2
    have hone : (u2 - 1).toNat = (2 ^ 32 - 1 + u2.toNat) % 2 ^ 32 := BitVec.toNat_sub ..
    rw [hr1, hr2, toNat_low16, toNat_low16, BitVec.toNat_sub, htemp, hlast, hone]
    generalize v1.toNat * q.toNat = lead at *
    omega

theorem uedivDigit_spec {v1 v2 uhigh u1 u2 u3 : BitVec 32} (hd : Digits v1 v2 uhigh u1 u2 u3) :
    ∃ q r1 r2, uedivDigit v1 v2 uhigh u1 u2 u3 = (q, r1, r2) ∧
      q.toNat = (uhigh.toNat * 2 ^ 16 + u3.toNat) / (v1.toNat * 2 ^ 16 + v2.toNat) ∧ q.toNat < 2 ^ 16 ∧
      r1.toNat < 2 ^ 16 ∧ r2.toNat < 2 ^ 16 ∧
      r1.toNat * 2 ^ 16 + r2.toNat = (uhigh.toNat * 2 ^ 16 + u3.toNat) % (v1.toNat * 2 ^ 16 + v2.toNat) := by
  obtain ⟨⟨hv1, hv1lt⟩, hv2, hhigh, hu2, hu3, hfits⟩ := id hd
  have hdigit := digit_lt hu3 hfits
  have hdigitmul : digit (2 ^ 16) v1.toNat v2.toNat uhigh.toNat u3.toNat * v1.toNat ≤ uhigh.toNat := digit_mul_le hu3
  have htrial : (lowerTrial uhigh v1 v2 u3 (if u1 = v1 then 0xffff else uhigh / v1)).toNat =
      digit (2 ^ 16) v1.toNat v2.toNat uhigh.toNat u3.toNat := by
    split
    case isTrue heq =>
      have hmul : v1.toNat * (0xffff : BitVec 32).toNat ≤ uhigh.toNat := by
        rw [hhigh, heq]
        exact (Nat.mul_le_mul_left _ (by decide)).trans (Nat.le_add_right _ _)
      exact lowerTrial_spec hd (by decide) hmul (Nat.le_of_lt_succ hdigit)
    case isFalse hne =>
      have hlt : u1.toNat < v1.toNat := by
        have hne' : u1.toNat ≠ v1.toNat := fun h => hne (BitVec.eq_of_toNat_eq h)
        omega
      have hquot : (uhigh / v1).toNat = uhigh.toNat / v1.toNat := BitVec.toNat_udiv
      have hsmall : uhigh.toNat / v1.toNat < 2 ^ 16 := by
        apply Nat.div_lt_of_lt_mul
        calc uhigh.toNat < (u1.toNat + 1) * 2 ^ 16 := by omega
          _ ≤ v1.toNat * 2 ^ 16 := Nat.mul_le_mul_right _ hlt
      refine lowerTrial_spec hd (by rw [hquot]; exact hsmall) ?_ ?_
      · rw [hquot]
        exact Nat.mul_div_le _ _
      · rw [hquot, Nat.le_div_iff_mul_le (by omega)]
        exact hdigitmul
  have hquot : digit (2 ^ 16) v1.toNat v2.toNat uhigh.toNat u3.toNat * (v1.toNat * 2 ^ 16 + v2.toNat) ≤
      uhigh.toNat * 2 ^ 16 + u3.toNat := Nat.div_mul_le_self _ _
  have hrem : uhigh.toNat * 2 ^ 16 + u3.toNat - digit (2 ^ 16) v1.toNat v2.toNat uhigh.toNat u3.toNat *
      (v1.toNat * 2 ^ 16 + v2.toNat) = (uhigh.toNat * 2 ^ 16 + u3.toNat) % (v1.toNat * 2 ^ 16 + v2.toNat) := by
    have hdivmod := Nat.div_add_mod' (uhigh.toNat * 2 ^ 16 + u3.toNat) (v1.toNat * 2 ^ 16 + v2.toNat)
    rw [← digit] at hdivmod
    omega
  have hremlt : (uhigh.toNat * 2 ^ 16 + u3.toNat) % (v1.toNat * 2 ^ 16 + v2.toNat) < v1.toNat * 2 ^ 16 + v2.toNat :=
    Nat.mod_lt _ (by omega)
  rw [← htrial] at hdigit hquot hrem
  obtain ⟨hr1, hr2, hrest⟩ := multiply_subtract hd hdigit hquot (by omega) rfl rfl
  exact ⟨_, _, _, rfl, htrial, hdigit, hr1, hr2, hrest.trans hrem⟩

theorem uedivDigits_spec {v : BitVec 32} {u : unsigned64} (hv : 2 ^ 31 ≤ v.toNat) (hfits : u.hi.toNat < v.toNat) :
    ∃ q1 u2 u3 q2 r1 r2,
      uedivDigit (v >>> 16) (v &&& 0xffff) u.hi (u.hi >>> 16) (u.hi &&& 0xffff) (u.lo >>> 16) = (q1, u2, u3) ∧
      uedivDigit (v >>> 16) (v &&& 0xffff) ((u2 <<< 16) + u3) u2 u3 (u.lo &&& 0xffff) = (q2, r1, r2) ∧
      ((q1 <<< 16) + q2).toNat = u.value.toNat / v.toNat ∧ ((r1 <<< 16) + r2).toNat = u.value.toNat % v.toNat := by
  have hvlt := v.isLt
  have hlo := u.lo.isLt
  have hjoin {a b : BitVec 32} (ha : a.toNat < 2 ^ 16) (hb : b.toNat < 2 ^ 16) :
      ((a <<< 16) + b).toNat = a.toNat * 2 ^ 16 + b.toNat := by
    rw [BitVec.toNat_add, BitVec.toNat_shiftLeft, Nat.shiftLeft_eq]
    omega
  have hvsplit : v.toNat / 2 ^ 16 * 2 ^ 16 + v.toNat % 2 ^ 16 = v.toNat := Nat.div_add_mod' _ _
  have hd : Digits (v >>> 16) (v &&& 0xffff) u.hi (u.hi >>> 16) (u.hi &&& 0xffff) (u.lo >>> 16) := by
    constructor <;> simp only [toNat_high16, toNat_low16] <;> omega
  obtain ⟨q1, u2, u3, hfirst, hq1, hq1lt, hu2, hu3, hrest⟩ := uedivDigit_spec hd
  rw [toNat_high16, toNat_low16, toNat_high16, hvsplit] at hq1 hrest
  have hrestlt : u2.toNat * 2 ^ 16 + u3.toNat < v.toNat := by
    rw [hrest]
    exact Nat.mod_lt _ (by omega)
  have hd' : Digits (v >>> 16) (v &&& 0xffff) ((u2 <<< 16) + u3) u2 u3 (u.lo &&& 0xffff) := by
    have hlow16 : (u.lo &&& 0xffff).toNat < 2 ^ 16 := by
      rw [toNat_low16]
      omega
    refine ⟨hd.leading, hd.second, hjoin hu2 hu3, hu3, hlow16, ?_⟩
    rwa [hjoin hu2 hu3, toNat_high16, toNat_low16, hvsplit]
  obtain ⟨q2, r1, r2, hsecond, hq2, hq2lt, hr1, hr2, hrem⟩ := uedivDigit_spec hd'
  rw [hjoin hu2 hu3, toNat_high16, toNat_low16, toNat_low16, hvsplit, hrest] at hq2 hrem
  have hsplit : (u.hi.toNat * 2 ^ 16 + u.lo.toNat / 2 ^ 16) * 2 ^ 16 + u.lo.toNat % 2 ^ 16 = u.value.toNat := by
    have hlow := Nat.div_add_mod' u.lo.toNat (2 ^ 16)
    rw [toNat_value]
    linarith
  obtain ⟨hquot, hmod⟩ := two_digits v.toNat u.hi.toNat (u.lo.toNat / 2 ^ 16) (u.lo.toNat % 2 ^ 16)
  rw [hsplit] at hquot hmod
  refine ⟨q1, u2, u3, q2, r1, r2, hfirst, hsecond, ?_, ?_⟩
  · rw [hjoin hq1lt hq2lt, hq1, hq2, hquot]
  · rw [hjoin hr1 hr2, hrem, hmod]

theorem uediv_spec (u : unsigned64) (d : BitVec 32) :
    (uediv u d = none ↔ d.toNat * 2 ^ 32 ≤ u.value.toNat) ∧
      ∀ q r, uediv u d = some (q, r) → q.toNat = u.value.toNat / d.toNat ∧ r.toNat = u.value.toNat % d.toNat := by
  rw [uediv]
  by_cases hzero : d = 0
  · subst hzero
    simp
  have hpos : 0 < d.toNat := by
    have hne : d.toNat ≠ 0 := fun h => hzero (BitVec.eq_of_toNat_eq h)
    omega
  obtain ⟨hsome, hnone⟩ := @normalize_spec 32 d u (by omega)
  rw [if_neg hzero]
  match hnorm : normalize 32 d u with
  | none => exact ⟨iff_of_true rfl (hnone hnorm), fun q r h => (nomatch h)⟩
  | some (v, u') =>
    obtain ⟨k, hv, hu, hhigh⟩ := hsome v u' hnorm
    have hvlt := v.isLt
    have hlo := u'.lo.isLt
    have hk : 0 < 2 ^ k := Nat.two_pow_pos k
    have hvalue := toNat_value u'
    have hlarge : v.toNat ≤ u'.hi.toNat ↔ d.toNat * 2 ^ 32 ≤ u.value.toNat := by
      have hscale : v.toNat * 2 ^ 32 ≤ u'.value.toNat ↔ d.toNat * 2 ^ 32 ≤ u.value.toNat := by
        rw [hv, hu, Nat.mul_right_comm, Nat.mul_le_mul_right_iff hk]
      rw [← hscale]
      omega
    by_cases hover : v ≤ u'.hi
    · simp only [if_pos hover]
      exact ⟨iff_of_true trivial (hlarge.mp hover), fun q r h => (nomatch h)⟩
    · have hfits : u'.hi.toNat < v.toNat := Nat.lt_of_not_le hover
      obtain ⟨q1, u2, u3, q2, r1, r2, hfirst, hsecond, hquot, hrem⟩ := uedivDigits_spec hhigh hfits
      simp only [if_neg hover, hfirst, hsecond]
      refine ⟨iff_of_false (fun h => (nomatch h)) (fun h => hfits.not_ge (hlarge.mpr h)), fun q r h => ?_⟩
      obtain ⟨rfl, rfl⟩ := Prod.mk.inj (Option.some.inj h)
      have hk32 : k ≤ 32 := by
        by_contra hbig
        have hpow : 2 ^ 32 ≤ 2 ^ k := Nat.pow_le_pow_right (by norm_num) (by omega)
        have hmul : 1 * 2 ^ k ≤ d.toNat * 2 ^ k := Nat.mul_le_mul_right _ hpos
        omega
      refine ⟨?_, unnormalize_spec hk32 (by omega) (by omega) ?_⟩
      · rw [hquot, hu, hv, Nat.mul_div_mul_right _ _ hk]
      · rw [hrem, hu, hv, Nat.mul_mod_mul_right]

theorem toNat_tempDividend (u : unsigned64) :
    (unsigned64.value (if decide (u.hi &&& SIGN ≠ 0) then
      { lo := -u.lo, hi := if -u.lo ≠ 0 then ~~~u.hi else -u.hi } else u)).toNat = u.value.toInt.natAbs ∧
      (decide (u.hi &&& SIGN ≠ 0) = true ↔ u.value.toInt < 0) := by
  have hlo := u.lo.isLt
  have hhi := u.hi.isLt
  have hvalue := toNat_value u
  have hcases := toInt_cases64 u.value
  have hneg : decide (u.hi &&& SIGN ≠ 0) = true ↔ 2 ^ 31 ≤ u.hi.toNat := by
    rw [decide_eq_true_iff, sign_iff, msb_iff]
  refine ⟨?_, by rw [hneg]; omega⟩
  by_cases h : 2 ^ 31 ≤ u.hi.toNat
  · rw [if_pos (hneg.mpr h), toNat_value]
    have hlow : (-u.lo).toNat = (2 ^ 32 - u.lo.toNat) % 2 ^ 32 := BitVec.toNat_neg _
    have hzero : -u.lo = 0 ↔ u.lo.toNat = 0 := by
      rw [← BitVec.toNat_inj, hlow]
      simp only [BitVec.ofNat_eq_ofNat, BitVec.toNat_ofNat]
      omega
    by_cases hlow0 : u.lo.toNat = 0
    · rw [if_neg (not_not.mpr (hzero.mpr hlow0)), BitVec.toNat_neg, hlow]
      omega
    · rw [if_pos (mt hzero.mp hlow0), BitVec.toNat_not, hlow]
      omega
  · rw [if_neg (mt hneg.mp h)]
    omega

theorem toNat_tempDivisor (d : BitVec 32) :
    (if d.slt 0 then -d else d).toNat = d.toInt.natAbs ∧ (d.slt 0 = true ↔ d.toInt < 0) := by
  have hd := d.isLt
  have hslt : d.slt 0 = true ↔ d.toInt < 0 := by simp [BitVec.slt]
  refine ⟨?_, hslt⟩
  have hcond := BitVec.toInt_eq_toNat_cond d
  split
  case isTrue h =>
    rw [hslt] at h
    rw [BitVec.toNat_neg]
    split at hcond <;> omega
  case isFalse h =>
    rw [hslt] at h
    split at hcond <;> omega

theorem tdiv_natAbs {x d : ℤ} {negX negD : Bool} (hx : negX = true ↔ x < 0) (hd : negD = true ↔ d < 0) :
    x.tdiv d = (if negD ^^ negX then -1 else 1) * ((x.natAbs / d.natAbs : ℕ) : ℤ) ∧
      x.tmod d = (if negX then -1 else 1) * ((x.natAbs % d.natAbs : ℕ) : ℤ) := by
  rw [Int.ofNat_tdiv, Int.ofNat_tmod]
  cases negX <;> cases negD <;> simp only [Bool.false_eq_true, true_iff, false_iff, not_lt] at hx hd <;>
    simp [abs_of_neg, abs_of_nonneg, hx, hd, Int.neg_tdiv, Int.tdiv_neg, Int.neg_tmod, Int.tmod_neg]

theorem toInt_neg_word {r : BitVec 32} (hr : r.toNat ≤ 2 ^ 31) : (-r).toInt = -r.toNat := by
  rw [BitVec.toInt_eq_toNat_cond, BitVec.toNat_neg]
  split <;> omega

theorem ediv_spec (indeterminate : BitVec 32 × BitVec 32) (u : unsigned64) (d : BitVec 32) :
    ((ediv indeterminate u d).overflow = false ↔
      d ≠ 0 ∧ -2 ^ 31 ≤ u.value.toInt.tdiv d.toInt ∧ u.value.toInt.tdiv d.toInt < 2 ^ 31) ∧
      ((ediv indeterminate u d).overflow = false → (ediv indeterminate u d).quot.toInt = u.value.toInt.tdiv d.toInt ∧
        (ediv indeterminate u d).remd.toInt = u.value.toInt.tmod d.toInt) := by
  obtain ⟨hdividend, hnegDividend⟩ := toNat_tempDividend u
  obtain ⟨hdivisor, hnegDivisor⟩ := toNat_tempDivisor d
  obtain ⟨hquot, hrem⟩ := tdiv_natAbs hnegDividend hnegDivisor
  unfold ediv
  generalize decide (u.hi &&& SIGN ≠ 0) = negDividend at *
  generalize d.slt 0 = negDivisor at *
  dsimp only
  generalize (if negDividend = true then
      ({ lo := -u.lo, hi := if -u.lo ≠ 0 then ~~~u.hi else -u.hi } : unsigned64) else u) = tempDividend at *
  generalize (if negDivisor = true then -d else d) = tempDivisor at *
  obtain ⟨hnone, hsome⟩ := uediv_spec tempDividend tempDivisor
  rw [hdividend, hdivisor] at hnone hsome
  have hzero : d = 0 ↔ d.toInt.natAbs = 0 := by
    rw [Int.natAbs_eq_zero, ← BitVec.toInt_inj, BitVec.ofNat_eq_ofNat, BitVec.toInt_zero]
  match hstored : uediv tempDividend tempDivisor with
  | none =>
    have hlarge := hnone.mp hstored
    simp only [↓reduceIte, Bool.true_eq_false, false_iff, false_imp_iff, and_true]
    rintro ⟨hne, hlow, hhigh⟩
    have hpos : 0 < d.toInt.natAbs := Nat.pos_of_ne_zero (mt hzero.mpr hne)
    have hquot' : 2 ^ 32 ≤ u.value.toInt.natAbs / d.toInt.natAbs := by
      rw [Nat.le_div_iff_mul_le hpos, Nat.mul_comm]
      exact hlarge
    rw [hquot] at hlow hhigh
    generalize (negDivisor ^^ negDividend) = negative at hlow hhigh
    cases negative <;> simp only [Bool.false_eq_true, ↓reduceIte] at hlow hhigh <;> omega
  | some (q, r) =>
    obtain ⟨hq, hr⟩ := hsome q r hstored
    have hsmall : ¬ d.toInt.natAbs * 2 ^ 32 ≤ u.value.toInt.natAbs := fun h => nomatch hstored.symm.trans (hnone.mpr h)
    have hne : d ≠ 0 := fun h => hsmall (by rw [hzero.mp h, Nat.zero_mul]; exact Nat.zero_le _)
    have hrlt : r.toNat < 2 ^ 31 := by
      have hpos : 0 < d.toInt.natAbs := Nat.pos_of_ne_zero (mt hzero.mpr hne)
      have hmod := Nat.mod_lt u.value.toInt.natAbs hpos
      have hbound := d.toInt_lt
      have hbound' := d.le_toInt
      omega
    have hremd : (if negDividend = true then -r else r).toInt = u.value.toInt.tmod d.toInt := by
      rw [hrem, ← hr]
      split
      · rw [toInt_neg_word hrlt.le, neg_one_mul]
      · rw [one_mul]
        exact BitVec.toInt_eq_toNat_of_lt (by omega)
    have hqlt := q.isLt
    have hqcond := BitVec.toInt_eq_toNat_cond q
    have hqneg := BitVec.toInt_eq_toNat_cond (-q)
    rw [BitVec.toNat_neg] at hqneg
    rw [hquot, ← hq]
    simp only [reduceCtorEq, ↓reduceIte, Option.getD_some]
    cases negDivisor ^^ negDividend <;>
      simp only [Bool.false_eq_true, ↓reduceIte, one_mul, neg_one_mul, BitVec.slt, decide_eq_false_iff_not, BitVec.ofNat_eq_ofNat, BitVec.toInt_zero, hremd, and_true]
    · split at hqcond <;> refine ⟨⟨fun h => ⟨hne, ?_, ?_⟩, fun h => ?_⟩, fun h => ?_⟩ <;> omega
    · split at hqneg <;> refine ⟨⟨fun h => ⟨hne, ?_, ?_⟩, fun h => ?_⟩, fun h => ?_⟩ <;> omega

end dce.dts
