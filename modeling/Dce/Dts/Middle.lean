import Dce.Lib.Clock
import Dce.Dts.Arith
import Dce.Dts.Intersection

namespace dce.dts

open lib

def K_100NS_PER_SEC : ℤ := 10000000

def UTCiMul (num : UTCValue) (I : BitVec 32) : UTCValue := (U64IMUL ⟨num.hi, num.lo⟩ I).value

def IsUTCneg (utc : UTCValue) : Bool := utc.msb

def UTCabsVal (sub1 : UTCValue) : UTCValue := if IsUTCneg sub1 then UTCsub 0 sub1 else sub1

section

variable (order : ByteOrder)

/-- `utc_addtime`, on the hosts whose `long` has 32 bits. -/
def utc_addtime (utc1 utc2 : utc_t) : Except Failure utc_t := do
  let (time1, inacc1, tdf) ← utc_comptime ⟨order, .b32⟩ utc1
  let (time2, inacc2, _) ← utc_comptime ⟨order, .b32⟩ utc2
  let resultinacc := if IsInfiniteInacc inacc1 || IsInfiniteInacc inacc2 then K_INFINITE_INACC else UTCadd inacc1 inacc2
  utc_mkcomptime ⟨order, .b32⟩ (UTCadd time1 time2) (some resultinacc) tdf

def utc_subtime (utc1 utc2 : utc_t) : Except Failure utc_t := do
  let (time1, inacc1, tdf) ← utc_comptime ⟨order, .b32⟩ utc1
  let (time2, inacc2, _) ← utc_comptime ⟨order, .b32⟩ utc2
  let resultinacc := if IsInfiniteInacc inacc1 || IsInfiniteInacc inacc2 then K_INFINITE_INACC else UTCadd inacc1 inacc2
  utc_mkcomptime ⟨order, .b32⟩ (UTCsub time1 time2) (some resultinacc) tdf

/-- `utc_multime`: the products of the high words show whether the whole products fit. -/
def utc_multime (utc1 : utc_t) (factor : BitVec 32) : Except Failure utc_t := do
  let (time1, inacc1, tdf) ← utc_comptime ⟨order, .b32⟩ utc1
  let absfactor := if factor.slt 0 then -factor else factor
  let inaccproduct := emul inacc1.hi absfactor
  let resultinacc :=
    if inaccproduct.hi ≠ 0 ∨ 0xffff < inaccproduct.lo then 0xFFFFFFFFFFFFFFFF else UTCiMul inacc1 absfactor
  let timeproduct := emul time1.hi factor
  if timeproduct.hi.slt (-1) ∨ BitVec.slt 0 timeproduct.hi ∨ (timeproduct.hi = 0 ∧ timeproduct.lo.slt 0) ∨
      (timeproduct.hi = -1 ∧ ¬ timeproduct.lo.slt 0) then .error .invalid
  else
    let resulttime := UTCiMul time1 factor
    if !IsUTCneg time1 ^^ !factor.slt 0 ^^ IsUTCneg resulttime then .error .invalid
    else utc_mkcomptime ⟨order, .b32⟩ resulttime (some resultinacc) tdf

/-- The middle between two ends, and half the span with the bits that the halves lose. -/
def middle (low high : UTCValue) : UTCValue × UTCValue :=
  let lowbits : ℤ := (UTClow low &&& 1).toNat + (UTClow high &&& 1).toNat
  let low := UTCdivideBy2 low
  let high := UTCdivideBy2 high
  (UTCiAdd (UTCadd low high) (lowbits / 2), UTCiAdd (UTCsub high low) ((lowbits + 1) / 2))

def utc_boundtime (utclp utchp : utc_t) : Except Failure utc_t := do
  let (timevaluel, inaccvaluel, _) ← utc_comptime ⟨order, .b32⟩ utclp
  let (timevalueh, inaccvalueh, tdfh) ← utc_comptime ⟨order, .b32⟩ utchp
  if IsInfiniteInacc inaccvaluel || IsInfiniteInacc inaccvalueh then
    if IsUTCgt timevaluel timevalueh then .error .invalid
    else utc_mkcomptime ⟨order, .b32⟩ (middle timevaluel timevalueh).1 none tdfh
  else
    let low := UTCsub timevaluel inaccvaluel
    let high := UTCadd timevalueh inaccvalueh
    if IsUTCgt low high then .error .invalid
    else utc_mkcomptime ⟨order, .b32⟩ (middle low high).1 (some (middle low high).2) tdfh

def utc_spantime (utc1 utc2 : utc_t) : Except Failure utc_t := do
  let (timevalue1, inaccvalue1, _) ← utc_comptime ⟨order, .b32⟩ utc1
  let (timevalue2, inaccvalue2, tdf) ← utc_comptime ⟨order, .b32⟩ utc2
  if IsInfiniteInacc inaccvalue1 || IsInfiniteInacc inaccvalue2 then
    utc_mkcomptime ⟨order, .b32⟩ (middle timevalue1 timevalue2).1 none tdf
  else
    let TempHi := UTCadd timevalue1 inaccvalue1
    let Temp := UTCadd timevalue2 inaccvalue2
    let TempHi := if IsUTClt TempHi Temp then Temp else TempHi
    let TempLo := UTCsub timevalue1 inaccvalue1
    let Temp := UTCsub timevalue2 inaccvalue2
    let TempLo := if IsUTCgt TempLo Temp then Temp else TempLo
    utc_mkcomptime ⟨order, .b32⟩ (middle TempLo TempHi).1 (some (middle TempLo TempHi).2) tdf

/-- `utc_abstime`: the least time has no absolute value. -/
def utc_abstime (utc1 : utc_t) : Except Failure utc_t := do
  let (resulttime, resultinacc, tdf) ← utc_comptime ⟨order, .b32⟩ utc1
  if resulttime = U64SET64 0x80000000 0 then .error .invalid
  else utc_mkcomptime ⟨order, .b32⟩ (UTCabsVal resulttime) (some resultinacc) tdf

end

end dce.dts

namespace dce.dts

/-- A number that a `UTCValue` holds. -/
def InRange (v : ℤ) : Prop := -2 ^ 63 ≤ v ∧ v < 2 ^ 63

variable {low high : UTCValue} (v : UTCValue) (time : UTCValue)

theorem toInt_inRange : InRange time.toInt := ⟨BitVec.le_toInt time, BitVec.toInt_lt⟩

theorem toInt_ofInt_of_inRange {v : ℤ} (h : InRange v) : (BitVec.ofInt 64 v).toInt = v := by
  obtain ⟨hlow, hhigh⟩ := h
  rw [BitVec.toInt_ofInt, Int.bmod_eq_of_le (by omega) (by omega)]

theorem far_of_not_inRange {v : ℤ} (h : ¬ InRange v) :
    (BitVec.ofInt 64 v).toInt ≤ v - 2 ^ 64 ∨ v + 2 ^ 64 ≤ (BitVec.ofInt 64 v).toInt := by
  obtain ⟨hlow, hhigh⟩ := toInt_inRange (BitVec.ofInt 64 v)
  have hbdiv := Int.bmod_add_bdiv v (2 ^ 64)
  rw [← BitVec.toInt_ofInt] at hbdiv
  push_cast at hbdiv
  unfold InRange at h
  omega

theorem toNat_lowbit : (UTClow v &&& 1).toNat = v.toNat % 2 := by
  have hmask : (v &&& 1).toNat = v.toNat / 2 ^ 0 % 2 ^ 1 * 2 ^ 0 := and_mask v.toNat 0 1
  rw [UTClow, hmask]
  simp

theorem toNat_UTCdivideBy2 : (UTCdivideBy2 v).toNat = v.toNat / 2 := by
  rw [UTCdivideBy2, BitVec.toNat_ushiftRight, Nat.shiftRight_eq_div_pow]

theorem toNat_UTCiAdd (n : ℕ) : (UTCiAdd v n).toNat = (v.toNat + n) % 2 ^ 64 := by
  rw [UTCiAdd, BitVec.ofInt_natCast, BitVec.toNat_add, BitVec.toNat_ofNat, Nat.add_mod_mod]

theorem toNat_middle (low high : UTCValue) :
    (middle low high).1.toNat = (low.toNat / 2 + high.toNat / 2 + (low.toNat % 2 + high.toNat % 2) / 2) % 2 ^ 64 ∧
    (middle low high).2.toNat =
      (high.toNat / 2 + 2 ^ 64 - low.toNat / 2 + (low.toNat % 2 + high.toNat % 2 + 1) / 2) % 2 ^ 64 := by
  have hlow := low.isLt
  have hhigh := high.isLt
  simp only [middle, toNat_lowbit]
  constructor
  · rw [show ((low.toNat % 2 : ℕ) + (high.toNat % 2 : ℕ) : ℤ) / 2 = ((low.toNat % 2 + high.toNat % 2) / 2 : ℕ) by push_cast; rfl,
      toNat_UTCiAdd, UTCadd, BitVec.toNat_add, toNat_UTCdivideBy2, toNat_UTCdivideBy2, Nat.mod_add_mod]
  · rw [show ((low.toNat % 2 : ℕ) + (high.toNat % 2 : ℕ) + 1 : ℤ) / 2 = ((low.toNat % 2 + high.toNat % 2 + 1) / 2 : ℕ) by
        push_cast; rfl,
      toNat_UTCiAdd, UTCsub, BitVec.toNat_sub, toNat_UTCdivideBy2, toNat_UTCdivideBy2, Nat.mod_add_mod]
    omega

theorem toInt_cases64 :
    (v.toInt = v.toNat ∧ v.toNat < 2 ^ 63) ∨ (v.toInt = v.toNat - 2 ^ 64 ∧ 2 ^ 63 ≤ v.toNat) := by
  rw [BitVec.toInt_eq_toNat_cond]
  split <;> omega

theorem exists_halves (low high : UTCValue) : ∃ a b p q : ℕ, low.toNat = 2 * a + p ∧ high.toNat = 2 * b + q ∧ (p = 0 ∨ p = 1) ∧
    (q = 0 ∨ q = 1) ∧ (middle low high).1.toNat = (a + b + (p + q) / 2) % 2 ^ 64 ∧
    (middle low high).2.toNat = (b + 2 ^ 64 - a + (p + q + 1) / 2) % 2 ^ 64 := by
  obtain ⟨hmid, hhalf⟩ := toNat_middle low high
  exact ⟨low.toNat / 2, high.toNat / 2, low.toNat % 2, high.toNat % 2, by omega, by omega, by omega, by omega, hmid, hhalf⟩

/-- Half the span between two ends, with a unit for what the halves of an odd lower end lose. -/
def halfSpan (low high : ℤ) : ℤ := (high - low + 1) / 2 + low % 2

theorem middle_same_sign (hle : low.toInt ≤ high.toInt) (hsign : low.toInt < 0 ↔ high.toInt < 0) :
    (middle low high).1.toInt = (low.toInt + high.toInt) / 2 ∧
      ((middle low high).2.toNat : ℤ) = halfSpan low.toInt high.toInt := by
  have hlowlt := low.isLt
  have hhighlt := high.isLt
  obtain ⟨a, b, p, q, hlow, hhigh, hp, hq, hmid, hhalf⟩ := exists_halves low high
  rw [hlow] at hlowlt
  rw [hhigh] at hhighlt
  have hresult := toInt_cases64 (middle low high).1
  rw [halfSpan]
  obtain ⟨hlowInt, hlowlt⟩ | ⟨hlowInt, hlowlt⟩ := toInt_cases64 low <;>
    obtain ⟨hhighInt, hhighlt⟩ | ⟨hhighInt, hhighlt⟩ := toInt_cases64 high <;>
    rw [hlow] at hlowInt hlowlt <;> rw [hhigh] at hhighInt hhighlt <;> rw [hlowInt, hhighInt] at hle hsign ⊢ <;>
    clear hlow hhigh hlowInt hhighInt <;> rcases hp with rfl | rfl <;> rcases hq with rfl | rfl <;> constructor <;> omega

theorem halfSpan_ends (low high : ℤ) :
    (low + high) / 2 - halfSpan low high = low - low % 2 - (high - low) % 2 ∧
      (low + high) / 2 + halfSpan low high = high + low % 2 := by
  rw [halfSpan]
  constructor <;> omega

theorem middle_across_zero (hlow : low.toInt < 0) (hhigh : 0 ≤ high.toInt) :
    if halfSpan low.toInt high.toInt < 2 ^ 63 then 2 ^ 63 ≤ (middle low high).2.toNat else (middle low high).2.toNat = 0 := by
  have hlowlt := low.isLt
  obtain ⟨a, b, p, q, hlownat, hhighnat, hp, hq, -, hhalf⟩ := exists_halves low high
  obtain ⟨hlowInt, hlowge⟩ | ⟨hlowInt, hlowge⟩ := toInt_cases64 low
  · omega
  obtain ⟨hhighInt, hhighlt⟩ | ⟨hhighInt, hhighlt⟩ := toInt_cases64 high
  · rw [hlownat] at hlowInt hlowlt hlowge
    rw [hhighnat] at hhighInt hhighlt
    rw [hlowInt, hhighInt, halfSpan]
    clear hlownat hhighnat hlowInt hhighInt hlow hhigh
    rcases hp with rfl | rfl <;> rcases hq with rfl | rfl <;> split <;> omega
  · omega

theorem middle_around (hlow : 0 ≤ low.toInt) (hhigh : high.toInt < 0) :
    ((middle low high).1.toInt = (low.toInt + high.toInt) / 2 + 2 ^ 63 ∨
        (middle low high).1.toInt = (low.toInt + high.toInt) / 2 - 2 ^ 63) ∧
      ((middle low high).2.toNat : ℤ) = halfSpan low.toInt (high.toInt + 2 ^ 64) := by
  have hhighlt := high.isLt
  obtain ⟨a, b, p, q, hlownat, hhighnat, hp, hq, hmid, hhalf⟩ := exists_halves low high
  have hresult := toInt_cases64 (middle low high).1
  obtain ⟨hlowInt, hlowlt⟩ | ⟨hlowInt, hlowlt⟩ := toInt_cases64 low
  · obtain ⟨hhighInt, hhighge⟩ | ⟨hhighInt, hhighge⟩ := toInt_cases64 high
    · omega
    · rw [hlownat] at hlowInt hlowlt
      rw [hhighnat] at hhighInt hhighlt hhighge
      rw [hlowInt, hhighInt, halfSpan]
      clear hlownat hhighnat hlowInt hhighInt hlow hhigh
      rcases hp with rfl | rfl <;> rcases hq with rfl | rfl <;> constructor <;> omega
  · omega

theorem UTCsub_eq (time inacc : UTCValue) : UTCsub time inacc = BitVec.ofInt 64 (time.toInt - inacc.toNat) := by
  rw [ofInt_sub, BitVec.ofInt_toInt, BitVec.ofInt_natCast, BitVec.ofNat_toNat, BitVec.setWidth_eq, UTCsub]

theorem UTCadd_eq (time inacc : UTCValue) : UTCadd time inacc = BitVec.ofInt 64 (time.toInt + inacc.toNat) := by
  rw [BitVec.ofInt_add, BitVec.ofInt_toInt, BitVec.ofInt_natCast, BitVec.ofNat_toNat, BitVec.setWidth_eq, UTCadd]

theorem toInt_UTCsub {inacc : UTCValue} (hle : inacc.toNat ≤ 2 ^ 48 - 1) :
    (InRange (time.toInt - inacc.toNat) ∧ (UTCsub time inacc).toInt = time.toInt - inacc.toNat) ∨
      (time.toInt - inacc.toNat < -2 ^ 63 ∧ (UTCsub time inacc).toInt = time.toInt - inacc.toNat + 2 ^ 64) := by
  obtain ⟨hlow, hhigh⟩ := toInt_inRange time
  rw [UTCsub_eq]
  by_cases h : InRange (time.toInt - inacc.toNat)
  · exact Or.inl ⟨h, toInt_ofInt_of_inRange h⟩
  · right
    obtain ⟨hlow', hhigh'⟩ := toInt_inRange (BitVec.ofInt 64 (time.toInt - inacc.toNat))
    have hbdiv := Int.bmod_add_bdiv (time.toInt - inacc.toNat) (2 ^ 64)
    rw [← BitVec.toInt_ofInt] at hbdiv
    push_cast at hbdiv
    unfold InRange at h
    omega

theorem toInt_UTCadd {inacc : UTCValue} (hle : inacc.toNat ≤ 2 ^ 48 - 1) :
    (InRange (time.toInt + inacc.toNat) ∧ (UTCadd time inacc).toInt = time.toInt + inacc.toNat) ∨
      (2 ^ 63 ≤ time.toInt + inacc.toNat ∧ (UTCadd time inacc).toInt = time.toInt + inacc.toNat - 2 ^ 64) := by
  obtain ⟨hlow, hhigh⟩ := toInt_inRange time
  rw [UTCadd_eq]
  by_cases h : InRange (time.toInt + inacc.toNat)
  · exact Or.inl ⟨h, toInt_ofInt_of_inRange h⟩
  · right
    obtain ⟨hlow', hhigh'⟩ := toInt_inRange (BitVec.ofInt 64 (time.toInt + inacc.toNat))
    have hbdiv := Int.bmod_add_bdiv (time.toInt + inacc.toNat) (2 ^ 64)
    rw [← BitVec.toInt_ofInt] at hbdiv
    push_cast at hbdiv
    unfold InRange at h
    omega

/-- Two ends between which the middle and half the span of `utc_boundtime` are lost: a span of all times, or one of 2⁶⁴ and more
with one end in range. -/
def Overlong (low high : ℤ) : Prop :=
  (InRange low ∧ InRange high ∧ 2 ^ 63 ≤ halfSpan low high) ∨ ((InRange low ∨ InRange high) ∧ 2 ^ 64 ≤ high - low)

theorem middle_has_ends_iff (hle : low.toInt ≤ high.toInt) :
    (IsInfiniteInacc (middle low high).2 = true ∨
      ((middle low high).1.toInt - (middle low high).2.toNat ≤ low.toInt ∧
        high.toInt ≤ (middle low high).1.toInt + (middle low high).2.toNat)) ↔
      halfSpan low.toInt high.toInt < 2 ^ 63 := by
  obtain ⟨hlowrange, -⟩ := toInt_inRange low
  obtain ⟨-, hhighrange⟩ := toInt_inRange high
  rw [IsInfiniteInacc_iff]
  by_cases hsign : low.toInt < 0 ↔ high.toInt < 0
  · obtain ⟨hmid, hhalf⟩ := middle_same_sign hle hsign
    obtain ⟨hstart, hend⟩ := halfSpan_ends low.toInt high.toInt
    rw [hmid, hhalf]
    have hshort : halfSpan low.toInt high.toInt < 2 ^ 63 := by
      rw [halfSpan]
      omega
    simp only [hshort, iff_true]
    right
    omega
  · have hacross := middle_across_zero (show low.toInt < 0 by omega) (show 0 ≤ high.toInt by omega)
    split at hacross
    case isTrue hshort =>
      simp only [hshort, iff_true]
      left
      omega
    case isFalse hlong =>
      rw [hacross]
      omega

theorem middle_misses {start stop : ℤ} (hle : low.toInt ≤ high.toInt)
    (hsign : low.toInt < 0 ↔ high.toInt < 0) (hspan : high.toInt - low.toInt < 2 ^ 48)
    (hmiss : start < low.toInt - 2 ∨ high.toInt + 1 < stop) :
    ¬ (IsInfiniteInacc (middle low high).2 = true ∨
      ((middle low high).1.toInt - (middle low high).2.toNat ≤ start ∧
        stop ≤ (middle low high).1.toInt + (middle low high).2.toNat)) := by
  obtain ⟨hmid, hhalf⟩ := middle_same_sign hle hsign
  obtain ⟨hstart, hend⟩ := halfSpan_ends low.toInt high.toInt
  rw [IsInfiniteInacc_iff, hmid]
  rw [← hhalf] at hstart hend
  have hshort : halfSpan low.toInt high.toInt < 2 ^ 48 - 1 := by
    rw [halfSpan]
    omega
  omega

theorem bound_ends_iff {low high : ℤ} {low' high' : UTCValue} (hlowbound : -2 ^ 63 - 2 ^ 48 < low) (hhighbound : high < 2 ^ 63 + 2 ^ 48)
    (hlow : (InRange low ∧ low'.toInt = low) ∨ (low < -2 ^ 63 ∧ low'.toInt = low + 2 ^ 64))
    (hhigh : (InRange high ∧ high'.toInt = high) ∨ (2 ^ 63 ≤ high ∧ high'.toInt = high - 2 ^ 64)) :
    (low'.toInt ≤ high'.toInt → low ≤ high → (IsInfiniteInacc (middle low' high').2 = true ∨
      ((middle low' high').1.toInt - (middle low' high').2.toNat ≤ low ∧
        high ≤ (middle low' high').1.toInt + (middle low' high').2.toNat))) ↔ ¬ Overlong low high := by
  obtain ⟨hlow'low, hlow'high⟩ := toInt_inRange low'
  obtain ⟨hhigh'low, hhigh'high⟩ := toInt_inRange high'
  obtain ⟨hlowin, hlow⟩ | ⟨hlowout, hlow⟩ := hlow <;> obtain ⟨hhighin, hhigh⟩ | ⟨hhighout, hhigh⟩ := hhigh
  · -- no end has changed its place
    rw [← hlow, ← hhigh, Overlong]
    by_cases hle : low'.toInt ≤ high'.toInt
    · simp only [hle, true_implies, middle_has_ends_iff hle]
      unfold InRange
      omega
    · simp only [hle, false_implies, true_iff, halfSpan]
      unfold InRange
      omega
  · have hover : Overlong low high ↔ high'.toInt ≥ low'.toInt := by
      rw [Overlong, hlow, hhigh]
      unfold InRange at *
      omega
    by_cases hle : low'.toInt ≤ high'.toInt
    · have hmiss := middle_misses hle (by omega) (by omega) (show low < low'.toInt - 2 ∨ high'.toInt + 1 < high from Or.inr (by omega))
      have hordered : low ≤ high := by omega
      rw [hover]
      exact ⟨fun h => absurd (h hle hordered) hmiss, fun h => absurd hle h⟩
    · simp [hover, hle]
  · have hover : Overlong low high ↔ high'.toInt ≥ low'.toInt := by
      rw [Overlong, hlow, hhigh]
      unfold InRange at *
      omega
    by_cases hle : low'.toInt ≤ high'.toInt
    · have hmiss := middle_misses hle (by omega) (by omega) (show low < low'.toInt - 2 ∨ high'.toInt + 1 < high from Or.inl (by omega))
      have hordered : low ≤ high := by omega
      rw [hover]
      exact ⟨fun h => absurd (h hle hordered) hmiss, fun h => absurd hle h⟩
    · simp [hover, hle]
  · have hover : ¬ Overlong low high := by
      unfold Overlong InRange
      omega
    have hgt : ¬ low'.toInt ≤ high'.toInt := by omega
    simp [hover, hgt]

/-- Ends that `utc_spantime` spans: `low` and `high` are the true ends, `first` and `last` the least of the lower and the greatest
of the upper ends that the words hold. -/
def Spannable (low high first last : ℤ) : Prop :=
  (first < 0 ∧ 0 ≤ last ∧ halfSpan first last < 2 ^ 63) ∨
  ((first < 0 ↔ last < 0) ∧ (2 ^ 48 - 1 ≤ halfSpan first last ∨
    (first - first % 2 - (last - first) % 2 ≤ low ∧ high ≤ last + first % 2))) ∨
  (0 ≤ first ∧ last < 0 ∧ (InRange low ∨ InRange high ∨ 2 ^ 48 - 1 ≤ halfSpan first (last + 2 ^ 64)))

theorem span_ordered_iff {low high : ℤ} {first last : UTCValue} (hle : first.toInt ≤ last.toInt) (hlow : low ≤ first.toInt)
    (hhigh : last.toInt ≤ high) :
    (IsInfiniteInacc (middle first last).2 = true ∨ ((middle first last).1.toInt - (middle first last).2.toNat ≤ low ∧
      high ≤ (middle first last).1.toInt + (middle first last).2.toNat)) ↔ Spannable low high first.toInt last.toInt := by
  rw [IsInfiniteInacc_iff]
  by_cases hsign : first.toInt < 0 ↔ last.toInt < 0
  · obtain ⟨hmid, hhalf⟩ := middle_same_sign hle hsign
    obtain ⟨hstart, hend⟩ := halfSpan_ends first.toInt last.toInt
    have hnat : 2 ^ 48 - 1 ≤ (middle first last).2.toNat ↔ (2 ^ 48 - 1 : ℤ) ≤ halfSpan first.toInt last.toInt := by
      rw [← hhalf]
      omega
    rw [hnat, hmid, hhalf, hstart, hend, Spannable]
    constructor
    · intro h
      exact Or.inr (Or.inl ⟨hsign, h⟩)
    · rintro (⟨hneg, hpos, -⟩ | ⟨-, h⟩ | ⟨hpos, hneg, -⟩)
      · omega
      · exact h
      · omega
  · have hacross := middle_across_zero (show first.toInt < 0 by omega) (show 0 ≤ last.toInt by omega)
    rw [Spannable]
    split at hacross
    case isTrue hshort =>
      exact ⟨fun _ => Or.inl ⟨by omega, by omega, hshort⟩, fun _ => Or.inl (by omega)⟩
    case isFalse hlong =>
      rw [hacross]
      omega

theorem span_around_iff {low high : ℤ} {first last : UTCValue} (hfirst : 0 ≤ first.toInt) (hlast : last.toInt < 0)
    (hends : (first.toInt = low + 2 ^ 64 ∧ last.toInt = high ∧ -2 ^ 64 ≤ low + high ∧ low < -2 ^ 63 ∧ InRange high) ∨
      (first.toInt = low ∧ last.toInt = high - 2 ^ 64 ∧ low + high < 2 ^ 64 ∧ 2 ^ 63 ≤ high ∧ InRange low) ∨
      (low < -2 ^ 63 ∧ 2 ^ 63 ≤ high)) :
    (IsInfiniteInacc (middle first last).2 = true ∨ ((middle first last).1.toInt - (middle first last).2.toNat ≤ low ∧
      high ≤ (middle first last).1.toInt + (middle first last).2.toNat)) ↔ Spannable low high first.toInt last.toInt := by
  obtain ⟨hmid, hhalf⟩ := middle_around hfirst hlast
  obtain ⟨hmidlow, hmidhigh⟩ := toInt_inRange (middle first last).1
  rw [IsInfiniteInacc_iff]
  obtain ⟨hstart, hend⟩ := halfSpan_ends low high
  obtain ⟨hlow, hhigh, hsum, hout, hin⟩ | ⟨hlow, hhigh, hsum, hout, hin⟩ | ⟨hlow, hhigh⟩ := hends
  · have hshift : halfSpan first.toInt (last.toInt + 2 ^ 64) = halfSpan low high := by
      rw [halfSpan, halfSpan]
      omega
    have hmiddle : (middle first last).1.toInt = (low + high) / 2 := by omega
    have hspannable : Spannable low high first.toInt last.toInt := Or.inr (Or.inr ⟨hfirst, hlast, Or.inr (Or.inl hin)⟩)
    simp only [hspannable, iff_true]
    rw [hmiddle, hhalf, hshift]
    omega
  · have hshift : halfSpan first.toInt (last.toInt + 2 ^ 64) = halfSpan low high := by
      rw [halfSpan, halfSpan]
      omega
    have hmiddle : (middle first last).1.toInt = (low + high) / 2 := by omega
    have hspannable : Spannable low high first.toInt last.toInt := Or.inr (Or.inr ⟨hfirst, hlast, Or.inl hin⟩)
    simp only [hspannable, iff_true]
    rw [hmiddle, hhalf, hshift]
    omega
  · have hnat : 2 ^ 48 - 1 ≤ (middle first last).2.toNat ↔
        (2 ^ 48 - 1 : ℤ) ≤ halfSpan first.toInt (last.toInt + 2 ^ 64) := by
      rw [← hhalf]
      omega
    have hspannable : Spannable low high first.toInt last.toInt ↔
        (2 ^ 48 - 1 : ℤ) ≤ halfSpan first.toInt (last.toInt + 2 ^ 64) := by
      rw [Spannable]
      unfold InRange
      omega
    rw [hspannable, ← hnat]
    omega

theorem toInt_ite_lt (a b : UTCValue) : (if IsUTClt a b then b else a).toInt = max a.toInt b.toInt := by
  split
  case isTrue h =>
    rw [IsUTClt_iff] at h
    omega
  case isFalse h =>
    rw [IsUTClt_iff] at h
    omega

theorem toInt_ite_gt (a b : UTCValue) : (if IsUTCgt a b then b else a).toInt = min a.toInt b.toInt := by
  split
  case isTrue h =>
    rw [IsUTCgt_iff] at h
    omega
  case isFalse h =>
    rw [IsUTCgt_iff] at h
    omega

theorem ends_out_of_order {t i : UTCValue} (hle : i.toNat ≤ 2 ^ 48 - 1) (hgt : (UTCadd t i).toInt < (UTCsub t i).toInt) :
    0 ≤ (UTCsub t i).toInt ∧ (UTCadd t i).toInt < 0 ∧
      ((t.toInt - i.toNat < -2 ^ 63 ∧ (UTCsub t i).toInt = t.toInt - i.toNat + 2 ^ 64 ∧ InRange (t.toInt + i.toNat) ∧
          (UTCadd t i).toInt = t.toInt + i.toNat) ∨
        (2 ^ 63 ≤ t.toInt + i.toNat ∧ (UTCadd t i).toInt = t.toInt + i.toNat - 2 ^ 64 ∧ InRange (t.toInt - i.toNat) ∧
          (UTCsub t i).toInt = t.toInt - i.toNat)) := by
  obtain ⟨hlow, hhigh⟩ := toInt_inRange t
  have hl := toInt_UTCsub t hle
  have hh := toInt_UTCadd t hle
  unfold InRange at *
  omega

theorem span_ends_iff {t1 i1 t2 i2 first last : UTCValue} (hle1 : i1.toNat ≤ 2 ^ 48 - 1) (hle2 : i2.toNat ≤ 2 ^ 48 - 1)
    (hfirst : first.toInt = min (UTCsub t1 i1).toInt (UTCsub t2 i2).toInt)
    (hlast : last.toInt = max (UTCadd t1 i1).toInt (UTCadd t2 i2).toInt) :
    (IsInfiniteInacc (middle first last).2 = true ∨
      ((middle first last).1.toInt - (middle first last).2.toNat ≤ min (t1.toInt - i1.toNat) (t2.toInt - i2.toNat) ∧
        max (t1.toInt + i1.toNat) (t2.toInt + i2.toNat) ≤ (middle first last).1.toInt + (middle first last).2.toNat)) ↔
      Spannable (min (t1.toInt - i1.toNat) (t2.toInt - i2.toNat)) (max (t1.toInt + i1.toNat) (t2.toInt + i2.toNat))
        first.toInt last.toInt := by
  obtain ⟨hlow1, hhigh1⟩ := toInt_inRange t1
  obtain ⟨hlow2, hhigh2⟩ := toInt_inRange t2
  by_cases hle : first.toInt ≤ last.toInt
  · have hl1 := toInt_UTCsub t1 hle1
    have hl2 := toInt_UTCsub t2 hle2
    have hh1 := toInt_UTCadd t1 hle1
    have hh2 := toInt_UTCadd t2 hle2
    have hlow : min (t1.toInt - i1.toNat) (t2.toInt - i2.toNat) ≤ first.toInt := by
      rw [hfirst]
      exact min_le_min (by omega) (by omega)
    have hhigh : last.toInt ≤ max (t1.toInt + i1.toNat) (t2.toInt + i2.toNat) := by
      rw [hlast]
      exact max_le_max (by omega) (by omega)
    exact span_ordered_iff hle hlow hhigh
  · -- both lower ends, both upper ends, or one of each have changed their places
    obtain ⟨hpos1, hneg1, hplaces1⟩ := ends_out_of_order (t := t1) hle1 (by omega)
    obtain ⟨hpos2, hneg2, hplaces2⟩ := ends_out_of_order (t := t2) hle2 (by omega)
    apply span_around_iff (by omega) (by omega)
    obtain ⟨hout1, hl1, hin1, hh1⟩ | ⟨hout1, hh1, hin1, hl1⟩ := hplaces1 <;>
      obtain ⟨hout2, hl2, hin2, hh2⟩ | ⟨hout2, hh2, hin2, hl2⟩ := hplaces2 <;>
      rw [hl1, hl2] at hfirst <;> rw [hh1, hh2] at hlast <;> unfold InRange at *
    · left
      omega
    · right
      right
      omega
    · right
      right
      omega
    · right
      left
      omega

/-! `CalcMidpointAndInacc` -/

/-- The midpoint of finite end points that are less than 2⁴⁸ apart covers them, and the inaccuracy is at most one unit more
than half their distance. -/
def MidpointCovers (minPoint maxPoint : EndPointElement) : Prop :=
  minPoint.intervalSize = .non_infinite → maxPoint.intervalSize = .non_infinite →
  minPoint.value.toInt ≤ maxPoint.value.toInt → maxPoint.value.toInt - minPoint.value.toInt < 2 ^ 48 →
  ∃ Tcomp Icomp, CalcMidpointAndInacc minPoint maxPoint = some (Tcomp, Icomp) ∧
    Tcomp.toInt - Icomp.toNat ≤ minPoint.value.toInt ∧ maxPoint.value.toInt ≤ Tcomp.toInt + Icomp.toNat ∧
    (Icomp.toNat : ℤ) ≤ (maxPoint.value.toInt - minPoint.value.toInt + 1) / 2 + 1

def MidpointFits (minPoint maxPoint : EndPointElement) : Prop :=
  minPoint.intervalSize = .non_infinite → maxPoint.intervalSize = .non_infinite →
  minPoint.value.toInt ≤ maxPoint.value.toInt → maxPoint.value.toInt - minPoint.value.toInt < 2 ^ 48 →
  (minPoint.value.toInt < 0 ↔ maxPoint.value.toInt < 0)

theorem toNat_midpoint (low high : UTCValue) :
    (UTCadd (UTCdivideBy2 low) (UTCdivideBy2 high)).toNat = (low.toNat / 2 + high.toNat / 2) % 2 ^ 64 := by
  rw [UTCadd, BitVec.toNat_add, toNat_UTCdivideBy2, toNat_UTCdivideBy2]

theorem toNat_halfwidth (hle : low.toInt ≤ high.toInt) (hwidth : high.toInt - low.toInt < 2 ^ 48) :
    ((UTCadd (UTCdivideBy2 (UTCsub high low))
      (if UTClow low &&& 1 ≠ 0 ∨ UTClow high &&& 1 ≠ 0 then 1 else 0)).toNat : ℤ) =
      (high.toInt - low.toInt) / 2 + if low.toNat % 2 = 1 ∨ high.toNat % 2 = 1 then 1 else 0 := by
  have hlowlt := low.isLt
  have hhighlt := high.isLt
  have hodd (v : UTCValue) : UTClow v &&& 1 ≠ 0 ↔ v.toNat % 2 = 1 := by
    rw [Ne, ← BitVec.toNat_inj, toNat_lowbit]
    change ¬v.toNat % 2 = 0 ↔ _
    omega
  have hsub : ((UTCsub high low).toNat : ℤ) = high.toInt - low.toInt := by
    have hlow := toInt_cases64 low
    have hhigh := toInt_cases64 high
    rw [UTCsub, BitVec.toNat_sub]
    omega
  rw [if_congr (or_congr (hodd low) (hodd high)) rfl rfl, UTCadd, BitVec.toNat_add, toNat_UTCdivideBy2]
  split_ifs
  · change ((((UTCsub high low).toNat / 2 + 1) % 2 ^ 64 : ℕ) : ℤ) = _
    omega
  · change ((((UTCsub high low).toNat / 2 + 0) % 2 ^ 64 : ℕ) : ℤ) = _
    omega

/-- The computed interval covers the chosen one exactly when the end points have one sign. -/
theorem midpoint_covers_iff (minPoint maxPoint : EndPointElement) :
    MidpointCovers minPoint maxPoint ↔ MidpointFits minPoint maxPoint := by
  refine forall_congr' fun hmin => forall_congr' fun hmax => forall_congr' fun hle => forall_congr' fun hwidth => ?_
  have hmid := toNat_midpoint minPoint.value maxPoint.value
  have hhalf := toNat_halfwidth hle hwidth
  have hcalc : CalcMidpointAndInacc minPoint maxPoint =
      some (UTCadd (UTCdivideBy2 minPoint.value) (UTCdivideBy2 maxPoint.value),
        UTCadd (UTCdivideBy2 (UTCsub maxPoint.value minPoint.value))
          (if UTClow minPoint.value &&& 1 ≠ 0 ∨ UTClow maxPoint.value &&& 1 ≠ 0 then 1 else 0)) := by
    rw [CalcMidpointAndInacc, if_pos hmin, if_neg (not_not.mpr hmax)]
  generalize UTCadd (UTCdivideBy2 minPoint.value) (UTCdivideBy2 maxPoint.value) = mid at *
  generalize UTCadd (UTCdivideBy2 (UTCsub maxPoint.value minPoint.value))
    (if UTClow minPoint.value &&& 1 ≠ 0 ∨ UTClow maxPoint.value &&& 1 ≠ 0 then 1 else 0) = half at *
  have hlowlt := minPoint.value.isLt
  have hhighlt := maxPoint.value.isLt
  have hlow := toInt_cases64 minPoint.value
  have hhigh := toInt_cases64 maxPoint.value
  have hresult := toInt_cases64 mid
  constructor
  · rintro ⟨T, I, hsome, hstart, hend, -⟩
    obtain ⟨rfl, rfl⟩ := Prod.mk.inj (Option.some.inj (hcalc.symm.trans hsome))
    split_ifs at hhalf <;> omega
  · intro hsign
    refine ⟨mid, half, hcalc, ?_⟩
    split_ifs at hhalf <;> omega

/-- The end points of the second around 15 October 1582. -/
theorem midpoint_across_1582 : ¬∀ minPoint maxPoint, MidpointCovers minPoint maxPoint := by
  intro hcovers
  have hfits := (midpoint_covers_iff ⟨.ofInt 64 (-5000000), .non_infinite, .min⟩ ⟨.ofInt 64 5000000, .non_infinite, .max⟩).mp
    (hcovers _ _)
  exact absurd (hfits rfl rfl (by decide) (by decide)) (by decide)

end dce.dts
