import Dce.Dts.SplitTime

namespace dce.dts

open lib

theorem toInt_add_small {v w : BitVec 32} (hlow : -2 ^ 31 ≤ v.toInt + w.toInt) (hhigh : v.toInt + w.toInt < 2 ^ 31) :
    (v + w).toInt = v.toInt + w.toInt := by
  rw [BitVec.toInt_add, Int.bmod_eq_of_le (by omega) (by omega)]

theorem toInt_sub_small {v w : BitVec 32} (hlow : -2 ^ 31 ≤ v.toInt - w.toInt) (hhigh : v.toInt - w.toInt < 2 ^ 31) :
    (v - w).toInt = v.toInt - w.toInt := by
  rw [BitVec.toInt_sub, Int.bmod_eq_of_le (by omega) (by omega)]

/-! The days -/

/-- The years that `mergetime` takes. -/
def MergedYear (year : ℤ) : Prop := -27644 ≤ year ∧ year ≤ 30809

instance (year : ℤ) : Decidable (MergedYear year) := inferInstanceAs (Decidable (_ ∧ _))

/-- The days by which `mergetime` is wrong: its test for the leap days of the earlier years is made after the offset of the
calendar was taken off, and the leap days before the year 1 are rounded to 0. -/
def leapError (year : ℤ) : ℤ :=
  if 1582 < year then 0
  else if 0 < year then if year % 4 = 0 then -1 else 0
  else if year % 4 = 2 ∨ year % 4 = 3 then 1 else 0

theorem mergedays_spec {d : Date} {mday : BitVec 32} (hd : d.Valid) (hmday : mday.toInt = d.day) (hyear : MergedYear d.year) :
    ∃ days, mergedays d.year (d.month + 1) mday = .ok days ∧ days.toInt = d.day + 365 * (d.year - 1) + (d.year - 1).tdiv 4 +
      (if d.Gregorian then -(d.year - 1).tdiv 100 + (d.year - 1).tdiv 400 - GREGORIAN_OFFSET else -JULIAN_OFFSET) := by
  obtain ⟨hlow, hhigh⟩ := hyear
  obtain ⟨hfour, hfour', hfour'', -, -⟩ := tdiv_tmod_spec (d.year - 1) (d := 4) (by decide)
  obtain ⟨hcent, hcent', hcent'', -, -⟩ := tdiv_tmod_spec (d.year - 1) (d := 100) (by decide)
  obtain ⟨hcycle, hcycle', hcycle'', -, -⟩ := tdiv_tmod_spec (d.year - 1) (d := 400) (by decide)
  have hle := monthLength_le (leapYear d.year) d.month hd.month_lt
  have hpos := hd.day_pos
  have hmost := hd.day_le
  have hkept := hd.kept
  have hgregorian : GREGORIAN_OFFSET = 577736 := by decide
  have hjulian : JULIAN_OFFSET = 577738 := by decide
  rw [mergedays, hgregorian, hjulian, hmday]
  generalize (d.year - 1).tdiv 4 = q₁ at *
  generalize (d.year - 1).tdiv 100 = q₂ at *
  generalize (d.year - 1).tdiv 400 = q₃ at *
  generalize (d.year - 1).tmod 4 = r₁ at *
  generalize (d.year - 1).tmod 100 = r₂ at *
  generalize (d.year - 1).tmod 400 = r₃ at *
  have hyears : (BitVec.ofInt 32 (365 * (d.year - 1) + q₁)).toInt = 365 * (d.year - 1) + q₁ :=
    toInt_word (by omega) (by omega)
  have hdays : (mday + BitVec.ofInt 32 (365 * (d.year - 1) + q₁)).toInt = d.day + 365 * (d.year - 1) + q₁ := by
    rw [toInt_add_small, hyears, hmday] <;> omega
  have hsame : (d.year > 1582 ∨ (d.year = 1582 ∧ ((d.month : ℤ) + 1 > 10 ∨ ((d.month : ℤ) + 1 = 10 ∧ d.day > 14)))) ↔
      d.Gregorian := by
    rw [Date.Gregorian]
    omega
  rw [if_congr hsame rfl rfl]
  by_cases hg : d.Gregorian
  · have hcenturies : (BitVec.ofInt 32 (-q₂ + q₃)).toInt = -q₂ + q₃ := toInt_word (by omega) (by omega)
    have hoffset : (BitVec.ofInt 32 577736).toInt = 577736 := by decide
    have hsum : (mday + BitVec.ofInt 32 (365 * (d.year - 1) + q₁) + BitVec.ofInt 32 (-q₂ + q₃)).toInt =
        d.day + 365 * (d.year - 1) + q₁ + (-q₂ + q₃) := by
      rw [toInt_add_small, hdays, hcenturies] <;> omega
    refine ⟨_, if_pos hg, ?_⟩
    rw [if_pos hg, toInt_sub_small, hsum, hoffset] <;> omega
  · have hoffset : (BitVec.ofInt 32 577738).toInt = 577738 := by decide
    have hnot : ¬(d.year = 1582 ∧ (d.month : ℤ) + 1 = 10 ∧ d.day > 4 ∧ d.day < 15) := by omega
    refine ⟨_, (if_neg hg).trans (if_neg hnot), ?_⟩
    rw [if_neg hg, toInt_sub_small, hdays, hoffset] <;> omega

theorem monthToDays_bounds : ∀ month < 12, 0 ≤ monthToDays.getD month 0 ∧ monthToDays.getD month 0 ≤ 334 := by decide

theorem toInt_mergeleap {year : ℤ} {month : ℕ} {days : BitVec 32} (hlow : -2 ^ 30 ≤ days.toInt) (hhigh : days.toInt ≤ 2 ^ 30) :
    (mergeleap year (month + 1) days).toInt = days.toInt +
      if 0 < days.toInt then (if 2 ≤ month ∧ leapYear year = true then 1 else 0)
        else if month < 2 ∧ leapYear year = true then -1 else 0 := by
  have hone : (1 : BitVec 32).toInt = 1 := by decide
  have hmarch : (month : ℤ) + 1 > 2 ↔ 2 ≤ month := by omega
  have hfebruary : (month : ℤ) + 1 < 3 ↔ month < 2 := by omega
  rw [mergeleap, IsLeapYear_eq]
  simp only [gt_iff_lt] at hmarch ⊢
  rw [if_congr (and_congr_left' hmarch) rfl rfl, if_congr (and_congr_left' hfebruary) rfl rfl]
  split_ifs
  · rw [toInt_add_small, hone] <;> omega
  · omega
  · rw [toInt_sub_small, hone] <;> omega
  · omega

theorem monthToDays_get {month : ℕ} (hmonth : month < 12) : monthToDays[month]? = some (monthToDays.getD month 0) := by
  have hsome := List.getElem?_eq_getElem (l := monthToDays) hmonth
  rw [hsome, List.getD_eq_getElem?_getD, hsome, Option.getD_some]

theorem mergeleap_spec {d : Date} {mday : BitVec 32} (hd : d.Valid) (hmday : mday.toInt = d.day) (hyear : MergedYear d.year) :
    ∃ days, mergedays d.year (d.month + 1) mday = .ok days ∧
      (mergeleap d.year (d.month + 1) days + .ofInt 32 (monthToDays.getD d.month 0)).toInt = d.number + leapError d.year := by
  obtain ⟨days, hdays, htoInt⟩ := mergedays_spec hd hmday hyear
  refine ⟨days, hdays, ?_⟩
  obtain ⟨hlow, hhigh⟩ := hyear
  obtain ⟨hbefore, hbefore'⟩ := monthToDays_bounds d.month hd.month_lt
  have hstart := monthStart_eq (leapYear d.year) d.month hd.month_lt
  have hle := monthLength_le (leapYear d.year) d.month hd.month_lt
  have hpos := hd.day_pos
  have hmost := hd.day_le
  have hword := toInt_word (x := monthToDays.getD d.month 0) (by omega) (by omega)
  generalize monthToDays.getD d.month 0 = before at *
  rw [Date.number, Date.yearDay, hstart, leapError]
  by_cases hg : d.Gregorian
  · have hyear : 1582 ≤ d.year := by
      rw [Date.Gregorian] at hg
      omega
    have hoffset : GREGORIAN_OFFSET = gregorianStart 1582 + 288 := by decide
    have hconst : gregorianStart 1582 = 577448 := by decide
    rw [if_pos hg, Int.tdiv_eq_ediv_of_nonneg (by omega), Int.tdiv_eq_ediv_of_nonneg (by omega),
      Int.tdiv_eq_ediv_of_nonneg (by omega), hoffset, hconst] at htoInt
    rw [if_pos hg, gregorianStart, hconst]
    have hmerge := @toInt_mergeleap d.year d.month days (by omega) (by omega)
    have hfirst : d.year = 1582 → leapYear d.year = false := by
      intro h
      rw [h]
      decide
    have hsum : (mergeleap d.year (d.month + 1) days).toInt + before = 365 * (d.year - 1) + (d.year - 1) / 4 -
        (d.year - 1) / 100 + (d.year - 1) / 400 + (before + (if leapYear d.year = true ∧ 2 ≤ d.month then 1 else 0) + d.day - 1) -
        (577448 + 287) := by
      rw [hmerge]
      by_cases hlater : 1582 < d.year
      · rw [if_pos (by omega), if_congr (and_comm (a := 2 ≤ d.month)) rfl rfl]
        omega
      · have hnoleap := hfirst (by omega)
        simp only [hnoleap, Bool.false_eq_true, and_false, false_and, if_false, ite_self]
        omega
    have herror : (if 1582 < d.year then (0 : ℤ) else if 0 < d.year then if d.year % 4 = 0 then -1 else 0
        else if d.year % 4 = 2 ∨ d.year % 4 = 3 then 1 else 0) = 0 := by split_ifs <;> omega
    rw [herror, toInt_add_small, hword, hsum, add_zero] <;> rw [hword, hsum] <;> split_ifs <;> omega
  · have hyear : d.year ≤ 1582 := by
      rw [Date.Gregorian] at hg
      omega
    obtain ⟨hfour, hfour', hfour'', hfournn, hfournp⟩ := tdiv_tmod_spec (d.year - 1) (d := 4) (by decide)
    have hoffset : JULIAN_OFFSET = 577738 := by decide
    have hconst : julianStart 1582 = 577460 := by decide
    have hleap : leapYear d.year = true ↔ d.year % 4 = 0 := by rw [leapYear, if_neg (by omega), decide_eq_true_eq]
    rw [if_neg hg, hoffset] at htoInt
    rw [if_neg hg, julianStart, hconst, if_neg (not_lt.mpr hyear)]
    generalize (d.year - 1).tdiv 4 = q at *
    generalize (d.year - 1).tmod 4 = r at *
    have hmerge := @toInt_mergeleap d.year d.month days (by omega) (by omega)
    have hbefore : ¬0 < days.toInt := by omega
    rw [if_neg hbefore] at hmerge
    have hsum : (mergeleap d.year (d.month + 1) days).toInt + before = 365 * (d.year - 1) + (d.year - 1) / 4 +
        (before + (if leapYear d.year = true ∧ 2 ≤ d.month then 1 else 0) + d.day - 1) - (577460 + 277) +
        (if 0 < d.year then if d.year % 4 = 0 then -1 else 0 else if d.year % 4 = 2 ∨ d.year % 4 = 3 then 1 else 0) := by
      rw [hmerge, htoInt]
      by_cases h4 : d.year % 4 = 0
      · have htrue := hleap.mpr h4
        simp only [htrue, true_and, and_true]
        split_ifs <;> omega
      · have hfalse : leapYear d.year = false := Bool.eq_false_iff.mpr (mt hleap.mp h4)
        simp only [hfalse, Bool.false_eq_true, false_and, and_false, if_false]
        split_ifs <;> omega
    rw [toInt_add_small, hword, hsum] <;> rw [hword, hsum] <;> split_ifs <;> omega

/-! What `mergetime` puts together -/

variable {timetm : tm} {tns : BitVec 32} {frac : ℤ}

def tm.civilSeconds (timetm : tm) : ℤ := timetm.date.number * SECS_PER_DAY + timetm.seconds

theorem year_word (year : BitVec 32) :
    ((year + .ofInt 32 TM_YEAR_BASE).toInt = year.toInt + TM_YEAR_BASE ∧ year.toInt + TM_YEAR_BASE < 2 ^ 31) ∨
      ((year + .ofInt 32 TM_YEAR_BASE).toInt < -27644 ∧ 30809 < year.toInt + TM_YEAR_BASE) := by
  have hlow := year.le_toInt
  have hhigh := year.toInt_lt
  have hbase : (BitVec.ofInt 32 TM_YEAR_BASE).toInt = 1900 := by decide
  rw [BitVec.toInt_add, hbase, TM_YEAR_BASE]
  by_cases hwrap : year.toInt + 1900 < 2 ^ 31
  · exact .inl ⟨Int.bmod_eq_of_le (by omega) (by omega), hwrap⟩
  · refine .inr ⟨?_, by omega⟩
    rw [Int.bmod_def]
    split_ifs <;> omega

theorem IsCivil.seconds_word (htm : IsCivil timetm tns frac) :
    ((timetm.tm_hour * .ofInt 32 MINS_PER_HOUR + timetm.tm_min) * .ofInt 32 SECS_PER_MIN + timetm.tm_sec).toInt =
      timetm.seconds := by
  obtain ⟨-, hhour, hmin, hsec, -, -, -⟩ := htm
  have hsum : (timetm.tm_hour * .ofInt 32 MINS_PER_HOUR + timetm.tm_min) * .ofInt 32 SECS_PER_MIN + timetm.tm_sec =
      .ofInt 32 timetm.seconds := by
    rw [tm.seconds, BitVec.ofInt_add, BitVec.ofInt_mul, BitVec.ofInt_add, BitVec.ofInt_mul, BitVec.ofInt_toInt,
      BitVec.ofInt_toInt, BitVec.ofInt_toInt]
  rw [hsum, tm.seconds]
  rw [SECS_PER_MIN, MINS_PER_HOUR, HOURS_PER_DAY] at *
  exact toInt_word (by omega) (by omega)

theorem mergetime_fails (hyear : ¬MergedYear timetm.date.year) : mergetime timetm tns = .error .invalid := by
  rw [mergetime]
  dsimp only
  change ¬(-27644 ≤ timetm.tm_year.toInt + TM_YEAR_BASE ∧ timetm.tm_year.toInt + TM_YEAR_BASE ≤ 30809) at hyear
  refine if_pos ?_
  obtain ⟨hsame, -⟩ | ⟨hwrap, -⟩ := year_word timetm.tm_year
  · rw [hsame]
    omega
  · exact .inl hwrap

theorem mergetime_spec (htm : IsCivil timetm tns frac) (hyear : MergedYear timetm.date.year) :
    mergetime timetm tns = .ok (.ofInt 64 (timetm.civilTicks frac + leapError timetm.date.year * K_100NS_PER_DAY),
      UTCadd (.ofInt 64 (timetm.civilSeconds + leapError timetm.date.year * SECS_PER_DAY)) diff_UTC_UNIX_secs) := by
  have hmonth : (timetm.tm_mon + 1).toInt = timetm.date.month + 1 := by
    have hlt : timetm.tm_mon.toNat < 12 := htm.valid.month_lt
    have hone : (1 : BitVec 32).toInt = 1 := by decide
    have hmon : timetm.tm_mon.toInt = timetm.date.month := BitVec.toInt_eq_toNat_of_lt (by omega)
    have hdate : timetm.date.month = timetm.tm_mon.toNat := rfl
    rw [toInt_add_small, hone, hmon] <;> rw [hone, hmon] <;> omega
  have hword : (timetm.tm_year + .ofInt 32 TM_YEAR_BASE).toInt = timetm.date.year := by
    obtain ⟨hsame, -⟩ | ⟨-, hlate⟩ := year_word timetm.tm_year
    · exact hsame
    · exact absurd hyear.2 (not_le.mpr hlate)
  obtain ⟨days, hdays, hnumber⟩ := @mergeleap_spec timetm.date timetm.tm_mday htm.valid rfl hyear
  have hday : (BitVec.ofInt 32 SECS_PER_DAY).toInt = SECS_PER_DAY := by decide
  have hfifty : ((tns + 50).sdiv 100).toInt = frac :=
    toInt_nsec (k := 50) htm.tns_eq htm.frac_lt.1 htm.frac_lt.2 (by decide) (by decide)
  have hget : monthToDays[timetm.tm_mon.toNat]? = some (monthToDays.getD timetm.date.month 0) :=
    monthToDays_get htm.valid.month_lt
  obtain ⟨hlow, hhigh⟩ := hyear
  rw [mergetime]
  dsimp only
  rw [hword, hmonth, if_neg (by omega), bind_of_ok _ hdays, hget]
  dsimp only
  rw [value_emul, hnumber, hday, htm.seconds_word, hfifty, UTCiAdd_ofInt, UTCiMul_ofInt _ toInt_K, UTCiAdd_ofInt]
  have hticks : ((timetm.date.number + leapError timetm.date.year) * SECS_PER_DAY + timetm.seconds) * K_100NS_PER_SEC + frac =
      timetm.civilTicks frac + leapError timetm.date.year * K_100NS_PER_DAY := by
    rw [tm.civilTicks, K_100NS_PER_DAY]
    ring
  have hseconds : (timetm.date.number + leapError timetm.date.year) * SECS_PER_DAY + timetm.seconds =
      timetm.civilSeconds + leapError timetm.date.year * SECS_PER_DAY := by
    rw [tm.civilSeconds]
    ring
  rw [hticks, hseconds]

/-! `utc_gmtime` and `utc_anytime` -/

/-- The years whose leap days `mergetime` counts as `splittime` does. -/
def LeapDaysKept (year : ℤ) : Prop :=
  1582 < year ∨ (0 < year ∧ year % 4 ≠ 0) ∨ (year ≤ 0 ∧ (year % 4 = 0 ∨ year % 4 = 1))

instance (year : ℤ) : Decidable (LeapDaysKept year) := inferInstanceAs (Decidable (_ ∨ _))

theorem leapError_eq_zero_iff {year : ℤ} : leapError year = 0 ↔ LeapDaysKept year := by
  rw [LeapDaysKept]
  unfold leapError
  by_cases hlater : 1582 < year
  · rw [if_pos hlater]
    omega
  · rw [if_neg hlater]
    by_cases hpos : 0 < year
    · rw [if_pos hpos]
      split_ifs with hleap
      · simp; omega
      · omega
    · rw [if_neg hpos]
      split_ifs with hleap
      · simp; omega
      · omega

theorem leapError_bounds (year : ℤ) : -1 ≤ leapError year ∧ leapError year ≤ 1 := by
  rw [leapError]
  split_ifs <;> omega

/-- The time and the inaccuracy of a `utc_t`. -/
def timeOf (order : ByteOrder) (utc : utc_t) : Except Failure (UTCValue × UTCValue) :=
  (utc_comptime ⟨order, .b32⟩ utc).map fun members => (members.1, members.2.1)

/-- `utc_mkgmtime` makes the same time and inaccuracy of what `utc_gmtime` returns. -/
def GmTimeExact (order : ByteOrder) (utc : utc_t) : Prop :=
  ∀ timetm tns inacctm ins, utc_gmtime order utc = .ok ((timetm, tns), inacctm, ins) →
    ∃ utc', utc_mkgmtime order timetm tns (some inacctm) ins = .ok utc' ∧ timeOf order utc' = timeOf order utc

/-- `utc_mkanytime` makes the same time, inaccuracy and differential of what `utc_anytime` returns. -/
def AnyTimeExact (order : ByteOrder) (utc : utc_t) : Prop :=
  ∀ timetm tns inacctm ins tdf, utc_anytime order utc = .ok ((timetm, tns), (inacctm, ins), tdf) →
    ∃ utc', utc_mkanytime order timetm tns (some inacctm) ins tdf = .ok utc' ∧
      utc_comptime ⟨order, .b32⟩ utc' = utc_comptime ⟨order, .b32⟩ utc

/-- The year of a time is one that `mergetime` takes and whose leap days it counts as `splittime` does. -/
def YearKept (v : UTCValue) : Prop :=
  ∀ d : Date, d.Valid → d.number = v.toInt / K_100NS_PER_DAY → MergedYear d.year ∧ LeapDaysKept d.year

def GmTimeFits (order : ByteOrder) (utc : utc_t) : Prop :=
  ∀ t inacc tdf, utc_comptime ⟨order, .b32⟩ utc = .ok (t, inacc, tdf) → YearKept t

def AnyTimeFits (order : ByteOrder) (utc : utc_t) : Prop :=
  ∀ t inacc tdf, utc_comptime ⟨order, .b32⟩ utc = .ok (t, inacc, tdf) → YearKept (localTime t tdf)

theorem localTime_zero (t : UTCValue) : localTime t 0 = t := by
  have hzero : (emul (.ofInt 32 0) (.ofInt 32 K_100NS_PER_SEC)).value = 0 := by decide
  rw [localTime, hzero]
  exact BitVec.zero_add t

theorem shifted_eq_iff {v : UTCValue} {e : ℤ} (hlow : -1 ≤ e) (hhigh : e ≤ 1) :
    .ofInt 64 (v.toInt + e * K_100NS_PER_DAY) = v ↔ e = 0 := by
  constructor
  · intro hsame
    have hmod := congrArg BitVec.toInt hsame
    rw [BitVec.toInt_ofInt, Int.bmod_def, K_100NS_PER_DAY, SECS_PER_DAY, K_100NS_PER_SEC] at hmod
    have hrange := toInt_inRange v
    rw [InRange] at hrange
    split_ifs at hmod <;> omega
  · rintro rfl
    rw [zero_mul, add_zero, BitVec.ofInt_toInt]

theorem IsCivil.with_isdst (htm : IsCivil timetm tns frac) (isdst : BitVec 32) :
    IsCivil { timetm with tm_isdst := isdst } tns frac := by
  obtain ⟨hvalid, hhour, hmin, hsec, hfrac, htns, hyday⟩ := htm
  exact ⟨hvalid, hhour, hmin, hsec, hfrac, htns, hyday⟩

theorem mergetime_splittime {v : UTCValue} (htm : IsCivil timetm tns frac) (hticks : timetm.civilTicks frac = v.toInt) :
    (∃ secs, mergetime timetm tns = .ok (v, secs)) ↔ YearKept v := by
  have hnumber := htm.ticks_parts.1
  rw [hticks] at hnumber
  have hkept : YearKept v ↔ MergedYear timetm.date.year ∧ LeapDaysKept timetm.date.year := by
    constructor
    · intro hyear
      exact hyear timetm.date htm.valid hnumber.symm
    · intro hyear d hd hday
      rwa [hd.number_injective htm.valid (hday.trans hnumber)]
  obtain ⟨hlow, hhigh⟩ := leapError_bounds timetm.date.year
  rw [hkept]
  by_cases hyear : MergedYear timetm.date.year
  · rw [mergetime_spec htm hyear, hticks, ← leapError_eq_zero_iff, ← shifted_eq_iff (v := v) hlow hhigh]
    constructor
    · rintro ⟨secs, hsame⟩
      exact ⟨hyear, congrArg Prod.fst (Except.ok.inj hsame)⟩
    · rintro ⟨-, hsame⟩
      exact ⟨_, by rw [hsame]⟩
  · rw [mergetime_fails hyear]
    refine iff_of_false ?_ fun h => hyear h.1
    simp

variable {order : ByteOrder} {utc : utc_t}

theorem gmTimeExact_iff (order : ByteOrder) (utc : utc_t) : GmTimeExact order utc ↔ GmTimeFits order utc := by
  cases hcomptime : utc_comptime ⟨order, .b32⟩ utc with
  | error e =>
    have hfail : utc_gmtime order utc = .error e := by simp only [utc_gmtime, hcomptime, bind, Except.bind]
    refine iff_of_true ?_ ?_
    · simp [GmTimeExact, hfail]
    · simp [GmTimeFits, hcomptime]
  | ok members =>
    obtain ⟨t, inacc, tdf⟩ := members
    obtain ⟨inacctm, ins, hsplit, hmerge⟩ := inacctm_spec order (utc_comptime_spec hcomptime).1
    obtain ⟨timetm, tns, frac, htime, htm, hticks, -, -⟩ := splittime_spec t 0
    rw [localTime_zero] at hticks
    have hcall : utc_gmtime order utc = .ok (({ timetm with tm_isdst := 0 }, tns), inacctm, ins) := by
      rw [utc_gmtime, bind_of_ok _ hcomptime]
      dsimp only
      rw [bind_of_ok _ hsplit, bind_of_ok _ htime]
    have hfits : GmTimeFits order utc ↔ YearKept t := by simp [GmTimeFits, hcomptime]
    have hmk {v secs : UTCValue} (hmergetime : mergetime { timetm with tm_isdst := 0 } tns = .ok (v, secs)) :
        ∃ utc', utc_mkgmtime order { timetm with tm_isdst := 0 } tns (some inacctm) ins = .ok utc' ∧
          timeOf order utc' = .ok (v, inacc) := by
      obtain ⟨utc', tdf', hmake, hreads, -⟩ := utc_mkcomptime_reads order v inacc 0
      rw [(utc_comptime_spec hcomptime).1] at hreads
      refine ⟨utc', ?_, by rw [timeOf, hreads]; rfl⟩
      rw [utc_mkgmtime, bind_of_ok _ hmerge, bind_of_ok _ hmergetime]
      exact hmake
    have hsame : timeOf order utc = .ok (t, inacc) := by
      rw [timeOf, hcomptime]
      rfl
    rw [hfits, ← mergetime_splittime (htm.with_isdst 0) hticks]
    constructor
    · intro hexact
      obtain ⟨utc', hmake, hreads⟩ := hexact _ _ _ _ hcall
      rw [hsame] at hreads
      cases hmergetime : mergetime { timetm with tm_isdst := 0 } tns with
      | error e =>
        rw [utc_mkgmtime, bind_of_ok _ hmerge, hmergetime] at hmake
        simp [bind, Except.bind] at hmake
      | ok merged =>
        obtain ⟨v, secs⟩ := merged
        obtain ⟨utc'', hmake', hreads'⟩ := hmk hmergetime
        obtain rfl := Except.ok.inj (hmake.symm.trans hmake')
        have heq := Except.ok.inj (hreads.symm.trans hreads')
        exact ⟨secs, by rw [(Prod.mk.inj heq).1]⟩
    · rintro ⟨secs, hmergetime⟩ timetm' tns' inacctm' ins' hout
      rw [hcall, Except.ok.injEq, Prod.mk.injEq, Prod.mk.injEq, Prod.mk.injEq] at hout
      obtain ⟨⟨rfl, rfl⟩, rfl, rfl⟩ := hout
      rw [hsame]
      exact hmk hmergetime

theorem anyTimeExact_iff (order : ByteOrder) (utc : utc_t) : AnyTimeExact order utc ↔ AnyTimeFits order utc := by
  cases hcomptime : utc_comptime ⟨order, .b32⟩ utc with
  | error e =>
    have hfail : utc_anytime order utc = .error e := by simp only [utc_anytime, hcomptime, bind, Except.bind]
    refine iff_of_true ?_ ?_
    · simp [AnyTimeExact, hfail]
    · simp [AnyTimeFits, hcomptime]
  | ok members =>
    obtain ⟨t, inacc, tdf⟩ := members
    obtain ⟨hgiven, htdf⟩ := utc_comptime_spec hcomptime
    obtain ⟨inacctm, ins, hsplit, hmerge⟩ := inacctm_spec order hgiven
    obtain ⟨timetm, tns, frac, htime, htm, hticks, -, -⟩ := splittime_spec t tdf
    have hcall : utc_anytime order utc = .ok (({ timetm with tm_isdst := -1 }, tns), (inacctm, ins), tdf) := by
      rw [utc_anytime, bind_of_ok _ hcomptime]
      dsimp only
      rw [bind_of_ok _ hsplit, bind_of_ok _ htime]
    have hfits : AnyTimeFits order utc ↔ YearKept (localTime t tdf) := by simp [AnyTimeFits, hcomptime]
    have hmk {v secs : UTCValue} (hmergetime : mergetime { timetm with tm_isdst := -1 } tns = .ok (v, secs)) :
        ∃ utc', utc_mkanytime order { timetm with tm_isdst := -1 } tns (some inacctm) ins tdf = .ok utc' ∧
          utc_comptime ⟨order, .b32⟩ utc' = .ok (UTCsub v (emul (.ofInt 32 tdf) (.ofInt 32 K_100NS_PER_SEC)).value, inacc, tdf) := by
      obtain ⟨utc', tdf', hmake, hreads, htdf'⟩ := utc_mkcomptime_reads order
        (UTCsub v (emul (.ofInt 32 tdf) (.ofInt 32 K_100NS_PER_SEC)).value) inacc tdf
      rw [hgiven, htdf' htdf] at hreads
      refine ⟨utc', ?_, hreads⟩
      rw [utc_mkanytime, bind_of_ok _ hmerge, bind_of_ok _ hmergetime]
      exact hmake
    have hlocal {v : UTCValue} : UTCsub v (emul (.ofInt 32 tdf) (.ofInt 32 K_100NS_PER_SEC)).value = t ↔ v = localTime t tdf := by
      rw [localTime, UTCsub, UTCadd, BitVec.add_comm]
      exact BitVec.sub_eq_iff_eq_add
    rw [hfits, ← mergetime_splittime (htm.with_isdst (-1)) hticks]
    constructor
    · intro hexact
      obtain ⟨utc', hmake, hreads⟩ := hexact _ _ _ _ _ hcall
      rw [hcomptime] at hreads
      cases hmergetime : mergetime { timetm with tm_isdst := -1 } tns with
      | error e =>
        rw [utc_mkanytime, bind_of_ok _ hmerge, hmergetime] at hmake
        simp [bind, Except.bind] at hmake
      | ok merged =>
        obtain ⟨v, secs⟩ := merged
        obtain ⟨utc'', hmake', hreads'⟩ := hmk hmergetime
        obtain rfl := Except.ok.inj (hmake.symm.trans hmake')
        have heq := Except.ok.inj (hreads.symm.trans hreads')
        exact ⟨secs, by rw [hlocal.mp (Prod.mk.inj heq).1.symm]⟩
    · rintro ⟨secs, hmergetime⟩ timetm' tns' inacctm' ins' tdf' hout
      rw [hcall, Except.ok.injEq, Prod.mk.injEq, Prod.mk.injEq, Prod.mk.injEq, Prod.mk.injEq] at hout
      obtain ⟨⟨rfl, rfl⟩, ⟨rfl, rfl⟩, rfl⟩ := hout
      obtain ⟨utc', hmake, hreads⟩ := hmk hmergetime
      exact ⟨utc', hmake, by rw [hreads, hcomptime, hlocal.mpr rfl]⟩

/-! Civil times as times -/

/-- A civil time with its day of the week is what `splittime` makes of the time that `mergetime` makes of it. -/
def TmSurvives (timetm : tm) (tns : BitVec 32) : Prop :=
  ∀ frac, IsCivil timetm tns frac → timetm.tm_wday.toInt = timetm.date.weekday →
    ∃ t secs, mergetime timetm tns = .ok (t, secs) ∧ splittime t 0 = .ok ({ timetm with tm_isdst := -1 }, tns)

/-- The date is one of the Gregorian calendar up to the last year that `mergetime` takes. -/
def TmFits (timetm : tm) (tns : BitVec 32) : Prop :=
  ∀ frac, IsCivil timetm tns frac → timetm.tm_wday.toInt = timetm.date.weekday →
    timetm.date.Gregorian ∧ timetm.date.year ≤ 30809

theorem IsCivil.inRange (htm : IsCivil timetm tns frac) (hpos : 0 ≤ timetm.date.number) (hyear : timetm.date.year ≤ 30809) :
    InRange (timetm.civilTicks frac) := by
  obtain ⟨-, -, hend⟩ := htm.valid.year_bounds.1 hpos
  have hmono := gregorianStart_mono (show timetm.date.year + 1 ≤ 30810 by omega)
  have hlast : gregorianStart 30810 = 11252756 := by decide
  have hfirst : gregorianStart 1582 = 577448 := by decide
  have hday : K_100NS_PER_DAY = 864000000000 := by decide
  obtain ⟨hrest, hrest'⟩ := htm.rest_bounds
  rw [hlast] at hmono
  rw [hfirst] at hend
  rw [hday] at hrest'
  rw [InRange, tm.civilTicks, hday]
  omega

theorem tmSurvives_iff (timetm : tm) (tns : BitVec 32) : TmSurvives timetm tns ↔ TmFits timetm tns := by
  refine forall_congr' fun frac => forall_congr' fun htm => forall_congr' fun hwday => ?_
  have hgregorian := htm.valid.gregorian_iff
  constructor
  · rintro ⟨t, secs, hmerge, hsplit⟩
    obtain ⟨timetm', tns', frac', htime, htm', hticks, -, hwday'⟩ := splittime_spec t 0
    rw [hsplit, Except.ok.injEq, Prod.mk.injEq] at htime
    obtain ⟨rfl, rfl⟩ := htime
    have hdate : ({ timetm with tm_isdst := -1 } : tm).date = timetm.date := rfl
    have hdays := htm'.ticks_parts.1
    rw [hticks, hdate] at hdays
    rw [hdate] at hwday'
    constructor
    · by_contra hjulian
      have hneg : timetm.date.number < 0 := not_le.mp (mt hgregorian.mpr hjulian)
      have hsign : (localTime t 0).toInt < 0 := by
        rw [← hdays] at hneg
        exact not_le.mp fun h => absurd (Int.ediv_nonneg h (by decide)) (not_le.mpr hneg)
      rw [if_pos hsign] at hwday'
      rw [Date.weekday] at hwday
      have hsame := hwday'.symm.trans hwday
      omega
    · by_contra hlate
      have hout : ¬MergedYear timetm.date.year := fun h => hlate h.2
      rw [mergetime_fails hout] at hmerge
      exact absurd hmerge (by simp)
  · rintro ⟨hdate, hyear⟩
    have hpos := hgregorian.mp hdate
    obtain ⟨hfirst, -⟩ := htm.valid.year_bounds.1 hpos
    have hkept : LeapDaysKept timetm.date.year := by
      rw [LeapDaysKept]
      omega
    have hrange := htm.inRange hpos hyear
    refine ⟨_, _, mergetime_spec htm ⟨by omega, hyear⟩, ?_⟩
    rw [leapError_eq_zero_iff.mpr hkept, zero_mul, add_zero]
    obtain ⟨timetm', tns', frac', htime, htm', hticks, hisdst, hwday'⟩ := splittime_spec (.ofInt 64 (timetm.civilTicks frac)) 0
    rw [localTime_zero, toInt_ofInt_of_inRange hrange] at hticks hwday'
    have hsince : ¬timetm.civilTicks frac < 0 := by
      have hrest := htm.rest_bounds.1
      have hdays := Int.mul_nonneg hpos (show 0 ≤ K_100NS_PER_DAY by decide)
      rw [tm.civilTicks]
      omega
    have hnumber : timetm'.date.number = timetm.date.number := by
      rw [← htm'.ticks_parts.1, hticks, htm.ticks_parts.1]
    rw [if_neg hsince, hnumber] at hwday'
    rw [Date.weekday] at hwday
    obtain ⟨rfl, rfl⟩ := htm'.unique (htm.with_isdst (-1)) hticks (BitVec.eq_of_toInt_eq (hwday'.trans hwday.symm)) hisdst
    exact htime

/-! The calendar -/

/-- What the conversions of civil times promise, for all times and all structures that hold one. -/
structure CalendarExact (order : ByteOrder) : Prop where
  gmtime : ∀ utc, GmTimeExact order utc
  anytime : ∀ utc, AnyTimeExact order utc
  civil : ∀ timetm tns, TmSurvives timetm tns

/-- For which times and structures the conversions keep the promise. -/
theorem calendar_exact_iff (order : ByteOrder) (utc : utc_t) (timetm : tm) (tns : BitVec 32) :
    (GmTimeExact order utc ↔ GmTimeFits order utc) ∧ (AnyTimeExact order utc ↔ AnyTimeFits order utc) ∧
      (TmSurvives timetm tns ↔ TmFits timetm tns) :=
  ⟨gmTimeExact_iff order utc, anyTimeExact_iff order utc, tmSurvives_iff timetm tns⟩

def leap_1500 : utc_t := ⟨[0, 0, 0x3d, 0xf1, 0xbb, 0x36, 0xa3, 0xff, 0, 0, 0, 0, 0, 0, 0, 0x10], rfl⟩

/-- `utc_mkgmtime` makes the day before of a day of a leap year of the Julian calendar. -/
theorem leap_1500_is_a_day_off : ¬CalendarExact .little := by
  intro hexact
  have hcomptime : utc_comptime ⟨.little, .b32⟩ leap_1500 = .ok (.ofInt 64 (-30228 * 864000000000), 0, 0) := by decide
  have hvalid : (Date.mk 1500 0 1).Valid := ⟨by decide, by decide, by decide, by decide⟩
  have hyear := (gmTimeExact_iff .little leap_1500).mp (hexact.gmtime leap_1500) _ _ _ hcomptime _ hvalid (by decide)
  exact absurd hyear.2 (by decide)

end dce.dts
