import Dce.Dts.RelTime
import Dce.Lib.Calendar

namespace dce.dts

open lib

def monthToDays : List ℤ := [0, 31, 59, 90, 120, 151, 181, 212, 243, 273, 304, 334]

def UTC_WDAY : ℤ := 1

def GREGORIAN_OFFSET : ℤ := 1581 * 365 + 1581 / 4 - 1581 / 100 + 1581 / 400 + 273 + 15

def JULIAN_OFFSET : ℤ := 1581 * 365 + 1581 / 4 + 273 + 5

def TM_YEAR_BASE : ℤ := 1900

def SECS_PER_HOUR : ℤ := 3600

def SECS_PER_DAY : ℤ := 86400

def DAYS_PER_WEEK : ℤ := 7

def diff_UTC_UNIX_secs : UTCValue := UTCinit 0x27ac6380 0xfffffffd

def IsLeapYear (year : ℤ) : Bool :=
  if year > 1582 then (year % 4 == 0 && year % 100 != 0) || year % 400 == 0 else year % 4 == 0

/-- The first part of `splittime`: the days, the seconds of the day and the nanoseconds of a local time. -/
def splitdays (lclTime : UTCValue) : Except Failure (ℤ × ℤ × BitVec 32) :=
  if IsUTCneg lclTime then do
    let (utcTemp, temp) ← UTCiDiv lclTime (-K_100NS_PER_SEC)
    let tns := if temp ≠ 0 then (.ofInt 32 K_100NS_PER_SEC + temp) * 100 else temp
    let utcTemp := if temp ≠ 0 then UTCiAdd utcTemp 1 else utcTemp
    let (utcTemp, seconds) ← UTCiDiv utcTemp SECS_PER_DAY
    let low := if seconds ≠ 0 then utcTemp.lo + 1 else utcTemp.lo
    let seconds := if seconds ≠ 0 then .ofInt 32 SECS_PER_DAY - seconds else seconds
    .ok ((-low + .ofInt 32 JULIAN_OFFSET - 1).toInt, seconds.toInt, tns)
  else do
    let (utcTemp, temp) ← UTCiDiv lclTime K_100NS_PER_SEC
    let (utcTemp, seconds) ← UTCiDiv utcTemp SECS_PER_DAY
    .ok ((utcTemp.lo + .ofInt 32 GREGORIAN_OFFSET - 1).toInt, seconds.toInt, temp * 100)

/-- The year and the day of the year, which the second part of `splittime` takes off the days: the centuries only for a time
that is not negative. -/
def splityear (neg : Bool) (days : ℤ) : ℤ × ℤ :=
  let year := 1
  let (year, days) :=
    if !neg then
      let year := year + days.tdiv 146097 * 400
      let days := days.tmod 146097
      let temp := if days.tdiv 36524 < 3 then days.tdiv 36524 else 3
      (year + temp * 100, days - temp * 36524)
    else (year, days)
  let year := year + days.tdiv 1461 * 4
  let days := days.tmod 1461
  let (year, days) := if days < 0 then (year - 4, days + 1461) else (year, days)
  let temp := if days.tdiv 365 < 3 then days.tdiv 365 else 3
  (year + temp, days - temp * 365)

/-- The loop over the months in `splittime`, which stops at the last one or before the first one that starts after the day. -/
def monthloop (days : ℤ) : ℕ := ((monthToDays.drop 1).takeWhile (· ≤ days)).length

def splitmonth (year days : ℤ) : ℕ × ℤ :=
  if days = 59 ∧ IsLeapYear year then (2 - 1, 29)
  else
    let days := if 59 < days ∧ IsLeapYear year then days - 1 else days
    let i := monthloop days
    (i, days + 1 - monthToDays.getD i 0)

def splittime (timep : UTCValue) (offset : ℤ) : Except Failure (tm × BitVec 32) := do
  let lclTime := UTCadd (emul (.ofInt 32 offset) (.ofInt 32 K_100NS_PER_SEC)).value timep
  let (days, seconds, tns) ← splitdays lclTime
  let wday := (UTC_WDAY + days).tmod DAYS_PER_WEEK
  let (year, yday) := splityear (IsUTCneg lclTime) days
  let (mon, mday) := splitmonth year yday
  .ok ({ tm_sec := .ofInt 32 ((seconds.tmod SECS_PER_HOUR).tmod SECS_PER_MIN)
         tm_min := .ofInt 32 ((seconds.tmod SECS_PER_HOUR).tdiv SECS_PER_MIN)
         tm_hour := .ofInt 32 (seconds.tdiv SECS_PER_HOUR)
         tm_mday := .ofInt 32 mday
         tm_mon := .ofNat 32 mon
         tm_year := .ofInt 32 (year - TM_YEAR_BASE)
         tm_wday := .ofInt 32 (if wday < 0 then wday + DAYS_PER_WEEK else wday)
         tm_yday := .ofInt 32 yday
         tm_isdst := -1 }, tns)

/-- The days of the years and of the month in `mergetime`, since 15 October 1582 or back from the 5th. -/
def mergedays (year month : ℤ) (tm_mday : BitVec 32) : Except Failure (BitVec 32) :=
  let days := tm_mday + .ofInt 32 (365 * (year - 1) + (year - 1).tdiv 4)
  if year > 1582 ∨ (year = 1582 ∧ (month > 10 ∨ (month = 10 ∧ tm_mday.toInt > 14))) then
    .ok (days + .ofInt 32 (-(year - 1).tdiv 100 + (year - 1).tdiv 400) - .ofInt 32 GREGORIAN_OFFSET)
  else if year = 1582 ∧ month = 10 ∧ tm_mday.toInt > 4 ∧ tm_mday.toInt < 15 then .error .invalid
  else .ok (days - .ofInt 32 JULIAN_OFFSET)

/-- The leap day in `mergetime`, where the sign of the days tells how the leap days of the years before were counted. -/
def mergeleap (year month : ℤ) (days : BitVec 32) : BitVec 32 :=
  if days.toInt > 0 then if month > 2 ∧ IsLeapYear year then days + 1 else days
  else if month < 3 ∧ IsLeapYear year then days - 1 else days

/-- `mergetime`, with the seconds since 1970. A month that the table does not have is read past its end. -/
def mergetime (timetm : tm) (tns : BitVec 32) : Except Failure (UTCValue × UTCValue) :=
  let year := (timetm.tm_year + .ofInt 32 TM_YEAR_BASE).toInt
  if year < -27644 ∨ year > 30809 then .error .invalid
  else do
    let month := (timetm.tm_mon + 1).toInt
    let days ← mergedays year month timetm.tm_mday
    match monthToDays[timetm.tm_mon.toNat]? with
    | none => .error .undefined
    | some before =>
      let days := mergeleap year month days + .ofInt 32 before
      let seconds := (emul days (.ofInt 32 SECS_PER_DAY)).value
      let seconds := UTCiAdd seconds ((timetm.tm_hour * .ofInt 32 MINS_PER_HOUR + timetm.tm_min) * .ofInt 32 SECS_PER_MIN +
        timetm.tm_sec).toInt
      .ok (UTCiAdd (UTCiMul seconds (.ofInt 32 K_100NS_PER_SEC)) ((tns + 50).sdiv 100).toInt, UTCadd seconds diff_UTC_UNIX_secs)

section

variable (order : ByteOrder)

/-- `utc_gmtime`, with a place for each of its results. -/
def utc_gmtime (utc : utc_t) : Except Failure ((tm × BitVec 32) × tm × BitVec 32) := do
  let (timevalue, inaccvalue, _) ← utc_comptime ⟨order, .b32⟩ utc
  let inacctm ← splitinacc inaccvalue
  let (timetm, tns) ← splittime timevalue 0
  .ok (({ timetm with tm_isdst := 0 }, tns), inacctm)

def utc_mkgmtime (timetm : tm) (tns : BitVec 32) (inacctm : Option tm) (ins : BitVec 32) : Except Failure utc_t := do
  let inaccvalue ← mergeinacc order inacctm ins
  let (timevalue, _) ← mergetime timetm tns
  utc_mkcomptime ⟨order, .b32⟩ timevalue (some inaccvalue) 0

/-- `utc_anytime`, with the seconds east of GMT. -/
def utc_anytime (utc : utc_t) : Except Failure ((tm × BitVec 32) × (tm × BitVec 32) × ℤ) := do
  let (timevalue, inaccvalue, atdf) ← utc_comptime ⟨order, .b32⟩ utc
  let inacctm ← splitinacc inaccvalue
  let (timetm, tns) ← splittime timevalue atdf
  .ok (({ timetm with tm_isdst := -1 }, tns), inacctm, atdf)

def utc_mkanytime (timetm : tm) (tns : BitVec 32) (inacctm : Option tm) (ins : BitVec 32) (tdf : ℤ) : Except Failure utc_t := do
  let inaccvalue ← mergeinacc order inacctm ins
  let (timevalue, _) ← mergetime timetm tns
  let utcTemp := (emul (.ofInt 32 tdf) (.ofInt 32 K_100NS_PER_SEC)).value
  utc_mkcomptime ⟨order, .b32⟩ (UTCsub timevalue utcTemp) (some inaccvalue) tdf

end

/-! What `splittime` takes apart -/

theorem IsLeapYear_eq (year : ℤ) : IsLeapYear year = leapYear year := by
  rw [IsLeapYear, leapYear, Bool.eq_iff_iff]
  split_ifs <;> simp

def K_100NS_PER_DAY : ℤ := SECS_PER_DAY * K_100NS_PER_SEC

theorem UTCiDiv_negative {v : UTCValue} {d : ℤ} (hd : 0 < d) (hd' : d < 2 ^ 31) (hv : v.toInt < 0) :
    ∃ (q : ℤ) (remd : BitVec 32), UTCiDiv v (-d) = .ok (.ofInt 64 q, remd) ∧ d * -q + remd.toInt = v.toInt ∧
      -d < remd.toInt ∧ remd.toInt ≤ 0 ∧ 0 ≤ q := by
  obtain ⟨remd, hdiv, hremd⟩ := UTCiDiv_spec v (I := -d) (by omega) (by omega) (by omega)
  obtain ⟨hsum, hlow, -, -, hneg⟩ := tdiv_tmod_spec v.toInt hd
  have hquot := Int.tdiv_nonneg (neg_nonneg.mpr hv.le) hd.le
  rw [Int.tdiv_neg] at hdiv
  rw [Int.tmod_neg] at hremd
  rw [Int.neg_tdiv] at hquot
  refine ⟨_, remd, hdiv, ?_, hremd ▸ hlow, hremd ▸ hneg hv.le, hquot⟩
  rw [hremd, neg_neg, hsum]

theorem ne_zero_iff (w : BitVec 32) : w ≠ 0 ↔ w.toInt ≠ 0 := by
  rw [Ne, ← BitVec.toInt_inj]
  rfl

theorem toInt_days {q c : ℤ} {low : BitVec 32} (hlow : low.toInt = q) (hq : -20000000 ≤ q ∧ q ≤ 20000000)
    (hc : 0 ≤ c ∧ c ≤ 1000000) : (-low + .ofInt 32 c - 1).toInt = -q + c - 1 ∧ (low + .ofInt 32 c - 1).toInt = q + c - 1 := by
  have hone : (1 : BitVec 32).toInt = 1 := by decide
  have hword : (BitVec.ofInt 32 c).toInt = c := by rw [BitVec.toInt_ofInt, Int.bmod_eq_of_le (by omega) (by omega)]
  constructor
  · rw [BitVec.toInt_sub, BitVec.toInt_add, BitVec.toInt_neg, hlow, hword, hone, Int.bmod_eq_of_le (n := -q) (by omega) (by omega),
      Int.bmod_eq_of_le (n := -q + c) (by omega) (by omega), Int.bmod_eq_of_le (by omega) (by omega)]
  · rw [BitVec.toInt_sub, BitVec.toInt_add, hlow, hword, hone, Int.bmod_eq_of_le (n := q + c) (by omega) (by omega),
      Int.bmod_eq_of_le (by omega) (by omega)]

theorem toInt_tns_of {w : BitVec 32} {frac : ℤ} (hw : w.toInt = frac) (hlow : 0 ≤ frac) (hhigh : frac < K_100NS_PER_SEC) :
    (w * 100).toInt = frac * 100 := by
  have hhundred : (100 : BitVec 32).toInt = 100 := by decide
  rw [K_100NS_PER_SEC] at hhigh
  rw [toInt_mul_small, hhundred, hw] <;> rw [hhundred] <;> omega

/-- The days, the seconds and the 100 ns of a local time, counted from the offset of its calendar. -/
def SplitsTo (lclTime : UTCValue) (offset : ℤ) : Prop :=
  ∃ tns seconds frac, splitdays lclTime = .ok (lclTime.toInt / K_100NS_PER_DAY + offset - 1, seconds, tns) ∧
    lclTime.toInt % K_100NS_PER_DAY = seconds * K_100NS_PER_SEC + frac ∧ 0 ≤ frac ∧ frac < K_100NS_PER_SEC ∧
    0 ≤ seconds ∧ seconds < SECS_PER_DAY ∧ tns.toInt = frac * 100

theorem splitdays_negative {lclTime : UTCValue} (hsign : lclTime.toInt < 0) : SplitsTo lclTime JULIAN_OFFSET := by
  have hrange := toInt_inRange lclTime
  rw [InRange] at hrange
  obtain ⟨q, temp, hdiv, hsum, hlow, hhigh, hq⟩ :=
    UTCiDiv_negative (d := K_100NS_PER_SEC) (by decide) (by decide) hsign
  obtain ⟨Q, frac, hQ, htns, hfloor, hfrac, hfrac'⟩ : ∃ Q frac, (if temp ≠ 0 then UTCiAdd (.ofInt 64 q) 1 else .ofInt 64 q) =
      .ofInt 64 Q ∧ (if temp ≠ 0 then (.ofInt 32 K_100NS_PER_SEC + temp) * 100 else temp).toInt = frac * 100 ∧
      lclTime.toInt = K_100NS_PER_SEC * -Q + frac ∧ 0 ≤ frac ∧ frac < K_100NS_PER_SEC := by
    by_cases htemp : temp.toInt = 0
    · refine ⟨q, 0, if_neg (mt (ne_zero_iff temp).mp (not_not.mpr htemp)), ?_, by omega, le_rfl, by decide⟩
      rw [if_neg (mt (ne_zero_iff temp).mp (not_not.mpr htemp)), htemp]
      rfl
    · have hne := (ne_zero_iff temp).mpr htemp
      rw [K_100NS_PER_SEC] at *
      have hsum' : (BitVec.ofInt 32 10000000 + temp).toInt = 10000000 + temp.toInt := by
        have hword : (BitVec.ofInt 32 10000000).toInt = 10000000 := by decide
        rw [BitVec.toInt_add, hword, Int.bmod_eq_of_le (by omega) (by omega)]
      refine ⟨q + 1, 10000000 + temp.toInt, by rw [if_pos hne, UTCiAdd_ofInt], ?_, by omega, by omega, by omega⟩
      rw [if_pos hne]
      exact toInt_tns_of hsum' (by omega) (by rw [K_100NS_PER_SEC]; omega)
  obtain ⟨days, seconds, hdiv', hdays, hsum', -, hhigh', hpos', -⟩ :=
    UTCiDiv_parts (.ofInt 64 Q) (d := SECS_PER_DAY) (by decide) (by decide)
  rw [K_100NS_PER_SEC] at *
  have hQ' : (BitVec.ofInt 64 Q).toInt = Q := toInt_ofInt_of_inRange ⟨by omega, by omega⟩
  rw [hQ'] at hsum' hpos'
  obtain ⟨hseconds, hdays'⟩ := hpos' (by omega)
  rw [SECS_PER_DAY] at *
  have hlo : (UTCValue.lo (.ofInt 64 days)).toInt = days := by rw [toInt_lo, hdays] <;> omega
  obtain ⟨D, secs, hlow', hsecs, hD, hsecs', hsecs''⟩ : ∃ D secs,
      (if seconds ≠ 0 then UTCValue.lo (.ofInt 64 days) + 1 else UTCValue.lo (.ofInt 64 days)).toInt = D ∧
      (if seconds ≠ 0 then .ofInt 32 86400 - seconds else seconds).toInt = secs ∧ Q = 86400 * D - secs ∧ 0 ≤ secs ∧
      secs < 86400 := by
    by_cases hsec : seconds.toInt = 0
    · have hne := mt (ne_zero_iff seconds).mp (not_not.mpr hsec)
      exact ⟨days, 0, by rw [if_neg hne, hlo], by rw [if_neg hne, hsec], by omega, le_rfl, by decide⟩
    · have hne := (ne_zero_iff seconds).mpr hsec
      have hword : (BitVec.ofInt 32 86400).toInt = 86400 := by decide
      have hone : (1 : BitVec 32).toInt = 1 := by decide
      refine ⟨days + 1, 86400 - seconds.toInt, ?_, ?_, by omega, by omega, by omega⟩
      · rw [if_pos hne, BitVec.toInt_add, hlo, hone, Int.bmod_eq_of_le (by omega) (by omega)]
      · rw [if_pos hne, BitVec.toInt_sub, hword, Int.bmod_eq_of_le (by omega) (by omega)]
  obtain ⟨hday, hrest⟩ := (Int.ediv_emod_unique (a := lclTime.toInt) (b := K_100NS_PER_DAY) (q := -D)
      (r := secs * 10000000 + frac) (by decide)).mpr (by
    rw [K_100NS_PER_DAY, K_100NS_PER_SEC, SECS_PER_DAY]
    omega)
  have hdate := (toInt_days hlow' (c := JULIAN_OFFSET) (by omega) (by decide)).1
  refine ⟨_, secs, frac, ?_, ?_, hfrac, hfrac', hsecs', hsecs'', htns⟩
  · rw [splitdays, if_pos (IsUTCneg_iff.mpr hsign)]
    rw [K_100NS_PER_SEC, SECS_PER_DAY, bind_of_ok _ hdiv]
    dsimp only
    rw [hQ, bind_of_ok _ hdiv']
    dsimp only
    rw [hdate, hsecs, hday]
  · rw [hrest, K_100NS_PER_SEC]

theorem splitdays_nonneg {lclTime : UTCValue} (hsign : ¬lclTime.toInt < 0) : SplitsTo lclTime GREGORIAN_OFFSET := by
  have hrange := toInt_inRange lclTime
  rw [InRange] at hrange
  obtain ⟨q, temp, hdiv, hq, hsum, -, hhigh, hpos, -⟩ :=
    UTCiDiv_parts lclTime (d := K_100NS_PER_SEC) (by decide) (by decide)
  obtain ⟨days, seconds, hdiv', hdays, hsum', -, hhigh', hpos', -⟩ :=
    UTCiDiv_parts (.ofInt 64 q) (d := SECS_PER_DAY) (by decide) (by decide)
  obtain ⟨htemp, hq'⟩ := hpos (not_lt.mp hsign)
  rw [hq] at hsum' hpos'
  obtain ⟨hseconds, hdays'⟩ := hpos' hq'
  rw [K_100NS_PER_SEC] at *
  rw [SECS_PER_DAY] at *
  have hlo : (UTCValue.lo (.ofInt 64 days)).toInt = days := by rw [toInt_lo, hdays] <;> omega
  obtain ⟨hday, hrest⟩ := (Int.ediv_emod_unique (a := lclTime.toInt) (b := K_100NS_PER_DAY) (q := days)
      (r := seconds.toInt * 10000000 + temp.toInt) (by decide)).mpr (by
    rw [K_100NS_PER_DAY, K_100NS_PER_SEC, SECS_PER_DAY]
    omega)
  have hdate := (toInt_days hlo (c := GREGORIAN_OFFSET) (by omega) (by decide)).2
  refine ⟨temp * 100, seconds.toInt, temp.toInt, ?_, ?_, htemp, hhigh, hseconds, hhigh', toInt_tns_of rfl htemp hhigh⟩
  · rw [splitdays, if_neg (mt IsUTCneg_iff.mp hsign)]
    rw [K_100NS_PER_SEC, SECS_PER_DAY, bind_of_ok _ hdiv]
    dsimp only
    rw [bind_of_ok _ hdiv']
    dsimp only
    rw [hdate, hday]
  · rw [hrest, K_100NS_PER_SEC]

/-! Dates -/

theorem monthStart_eq (leap : Bool) : ∀ month < 12,
    monthStart leap month = monthToDays.getD month 0 + if leap = true ∧ 2 ≤ month then 1 else 0 := by
  cases leap <;> decide

theorem monthLength_false_le (leap : Bool) : ∀ month < 12, monthLength false month ≤ monthLength leap month := by
  cases leap <;> decide

set_option maxRecDepth 4000 in
theorem monthloop_spec : ∀ n < (365 : ℕ), monthloop n < 12 ∧ monthToDays.getD (monthloop n) 0 ≤ n ∧
    (n : ℤ) < monthToDays.getD (monthloop n) 0 + monthLength false (monthloop n) ∧ (59 ≤ n ↔ 2 ≤ monthloop n) := by
  decide +kernel

theorem splitmonth_spec {year yday : ℤ} (hlow : 0 ≤ yday) (hhigh : yday < yearLength (leapYear year)) :
    ∃ (month : ℕ) (mday : ℤ), splitmonth year yday = (month, mday) ∧ month < 12 ∧ 1 ≤ mday ∧ mday ≤ monthLength (leapYear year) month ∧
      monthStart (leapYear year) month + mday - 1 = yday := by
  rw [splitmonth, IsLeapYear_eq]
  generalize leapYear year = leap at *
  by_cases hleap : yday = 59 ∧ leap = true
  · obtain ⟨rfl, rfl⟩ := hleap
    exact ⟨1, 29, rfl, by decide, by decide, by decide, by decide⟩
  · rw [if_neg hleap]
    obtain ⟨n, hn, hn', hday⟩ : ∃ n < (365 : ℕ), (if 59 < yday ∧ leap = true then yday - 1 else yday) = n ∧
        yday = n + if leap = true ∧ 59 ≤ n then 1 else 0 := by
      rw [yearLength] at hhigh
      cases leap with
      | true =>
        simp only [and_true, true_and, if_true] at *
        exact ⟨(if 59 < yday then yday - 1 else yday).toNat, by split_ifs <;> omega, by split_ifs <;> omega, by split_ifs <;> omega⟩
      | false =>
        simp only [Bool.false_eq_true, and_false, false_and, if_false] at *
        exact ⟨yday.toNat, by omega, by omega, by omega⟩
    obtain ⟨hmonth, hstart, hend, hmarch⟩ := monthloop_spec n hn
    have hlength := monthLength_false_le leap _ hmonth
    rw [hn']
    dsimp only
    have hsame : (if leap = true ∧ 59 ≤ n then 1 else 0 : ℤ) = if leap = true ∧ 2 ≤ monthloop n then 1 else 0 :=
      if_congr (and_congr_right' hmarch) rfl rfl
    refine ⟨monthloop n, _, rfl, hmonth, by omega, by omega, ?_⟩
    rw [monthStart_eq leap _ hmonth, hday, hsame]
    omega

theorem splityear_julian (days : ℤ) : ∃ year yday, splityear true days = (year, yday) ∧ days = julianStart year + yday ∧
    0 ≤ yday ∧ yday < yearLength (decide (year % 4 = 0)) := by
  obtain ⟨hsum, hlow, hhigh, hpos, hneg⟩ := tdiv_tmod_spec days (d := 1461) (by decide)
  simp only [splityear, Bool.not_true, Bool.false_eq_true, if_false]
  generalize days.tdiv 1461 = c at *
  generalize days.tmod 1461 = r at *
  obtain ⟨y, r', hif, hr', hr'', hdays⟩ : ∃ y r', (if r < 0 then (1 + c * 4 - 4, r + 1461) else (1 + c * 4, r)) = (4 * y + 1, r') ∧
      0 ≤ r' ∧ r' < 1461 ∧ days = 1461 * y + r' := by
    by_cases hsign : r < 0
    · exact ⟨c - 1, r + 1461, by rw [if_pos hsign]; ring_nf, by omega, by omega, by omega⟩
    · exact ⟨c, r, by rw [if_neg hsign]; ring_nf, by omega, by omega, by omega⟩
  rw [hif]
  dsimp only
  rw [Int.tdiv_eq_ediv_of_nonneg hr']
  refine ⟨_, _, rfl, ?_, ?_, ?_⟩
  · rw [julianStart]
    split_ifs <;> omega
  · split_ifs <;> omega
  · rw [yearLength]
    by_cases hlast : r' / 365 < 3
    · rw [if_pos hlast, if_neg (by simp; omega)]
      omega
    · rw [if_neg hlast, if_pos (by simp; omega)]
      omega

theorem splityear_gregorian {days : ℤ} (hdays : 0 ≤ days) : ∃ year yday, splityear false days = (year, yday) ∧
    days = gregorianStart year + yday ∧ 0 ≤ yday ∧
    yday < yearLength (decide ((year % 4 = 0 ∧ year % 100 ≠ 0) ∨ year % 400 = 0)) := by
  simp only [splityear, Bool.not_false, if_true]
  rw [Int.tdiv_eq_ediv_of_nonneg hdays, Int.tmod_eq_emod_of_nonneg hdays]
  obtain ⟨a, r₁, ha, hr₁, hr₁'⟩ : ∃ a r, days = 146097 * a + r ∧ 0 ≤ r ∧ r < 146097 :=
    ⟨days / 146097, days % 146097, by omega, by omega, by omega⟩
  have hquot : days / 146097 = a := by omega
  have hrest : days % 146097 = r₁ := by omega
  rw [hquot, hrest, Int.tdiv_eq_ediv_of_nonneg hr₁]
  obtain ⟨b, hb⟩ : ∃ b, b = if r₁ / 36524 < 3 then r₁ / 36524 else 3 := ⟨_, rfl⟩
  obtain ⟨r₂, hr₂⟩ : ∃ r₂, r₂ = r₁ - b * 36524 := ⟨_, rfl⟩
  rw [← hb, ← hr₂]
  have hcentury : 0 ≤ b ∧ b ≤ 3 ∧ 0 ≤ r₂ ∧ (r₂ < 36524 ∨ (r₂ = 36524 ∧ b = 3)) := by split_ifs at hb <;> omega
  rw [Int.tdiv_eq_ediv_of_nonneg hcentury.2.2.1, Int.tmod_eq_emod_of_nonneg hcentury.2.2.1]
  obtain ⟨c, r₃, hc, hr₃, hr₃'⟩ : ∃ c r, r₂ = 1461 * c + r ∧ 0 ≤ r ∧ r < 1461 :=
    ⟨r₂ / 1461, r₂ % 1461, by omega, by omega, by omega⟩
  have hquot' : r₂ / 1461 = c := by omega
  have hrest' : r₂ % 1461 = r₃ := by omega
  rw [hquot', hrest', if_neg (by omega)]
  dsimp only
  rw [Int.tdiv_eq_ediv_of_nonneg hr₃]
  obtain ⟨d, hd⟩ : ∃ d, d = if r₃ / 365 < 3 then r₃ / 365 else 3 := ⟨_, rfl⟩
  rw [← hd]
  have hyear : 0 ≤ d ∧ d ≤ 3 ∧ 0 ≤ r₃ - d * 365 ∧ (r₃ - d * 365 < 365 ∨ (r₃ - d * 365 = 365 ∧ d = 3)) := by
    split_ifs at hd <;> omega
  clear hb hd hquot hrest hquot' hrest'
  obtain ⟨y, hy⟩ : ∃ y, y = 1 + a * 400 + b * 100 + c * 4 + d := ⟨_, rfl⟩
  have hfour : (y - 1) / 4 = 100 * a + 25 * b + c := by omega
  have hhundred : (y - 1) / 100 = 4 * a + b := by omega
  have hfourhundred : (y - 1) / 400 = a := by omega
  refine ⟨y, r₃ - d * 365, by rw [hy], ?_, hyear.2.2.1, ?_⟩
  · rw [gregorianStart, hfour, hhundred, hfourhundred]
    omega
  · rw [yearLength]
    obtain hshort | ⟨hlong, hlast⟩ := hyear.2.2.2
    · split_ifs <;> omega
    · rw [if_pos (decide_eq_true (by omega))]
      omega

/-! Civil times -/

/-- The date in a `struct tm`. -/
def tm.date (timetm : tm) : Date := ⟨timetm.tm_year.toInt + TM_YEAR_BASE, timetm.tm_mon.toNat, timetm.tm_mday.toInt⟩

/-- The seconds of the day in a `struct tm`. -/
def tm.seconds (timetm : tm) : ℤ :=
  (timetm.tm_hour.toInt * MINS_PER_HOUR + timetm.tm_min.toInt) * SECS_PER_MIN + timetm.tm_sec.toInt

def tm.civilTicks (timetm : tm) (frac : ℤ) : ℤ :=
  timetm.date.number * K_100NS_PER_DAY + (timetm.seconds * K_100NS_PER_SEC + frac)

/-- The members of a `struct tm` and the nanoseconds for a civil time, without the day of the week. -/
structure IsCivil (timetm : tm) (tns : BitVec 32) (frac : ℤ) : Prop where
  valid : timetm.date.Valid
  hour_lt : 0 ≤ timetm.tm_hour.toInt ∧ timetm.tm_hour.toInt < HOURS_PER_DAY
  min_lt : 0 ≤ timetm.tm_min.toInt ∧ timetm.tm_min.toInt < MINS_PER_HOUR
  sec_lt : 0 ≤ timetm.tm_sec.toInt ∧ timetm.tm_sec.toInt < SECS_PER_MIN
  frac_lt : 0 ≤ frac ∧ frac < K_100NS_PER_SEC
  tns_eq : tns.toInt = frac * 100
  yday_eq : timetm.tm_yday.toInt = timetm.date.yearDay

theorem IsCivil.rest_bounds {timetm : tm} {tns : BitVec 32} {frac : ℤ} (htm : IsCivil timetm tns frac) :
    0 ≤ timetm.seconds * K_100NS_PER_SEC + frac ∧ timetm.seconds * K_100NS_PER_SEC + frac < K_100NS_PER_DAY := by
  obtain ⟨-, hhour, hmin, hsec, hfrac, -, -⟩ := htm
  rw [tm.seconds]
  rw [K_100NS_PER_DAY, K_100NS_PER_SEC, SECS_PER_DAY, SECS_PER_MIN, MINS_PER_HOUR, HOURS_PER_DAY] at *
  omega

theorem IsCivil.ticks_parts {timetm : tm} {tns : BitVec 32} {frac : ℤ} (htm : IsCivil timetm tns frac) :
    timetm.civilTicks frac / K_100NS_PER_DAY = timetm.date.number ∧
      timetm.civilTicks frac % K_100NS_PER_DAY = timetm.seconds * K_100NS_PER_SEC + frac := by
  obtain ⟨hlow, hhigh⟩ := htm.rest_bounds
  refine (Int.ediv_emod_unique (by decide)).mpr ⟨?_, hlow, hhigh⟩
  rw [tm.civilTicks, Int.mul_comm K_100NS_PER_DAY, Int.add_comm]

theorem IsCivil.unique {a b : tm} {tns tns' : BitVec 32} {frac frac' : ℤ} (ha : IsCivil a tns frac) (hb : IsCivil b tns' frac')
    (hticks : a.civilTicks frac = b.civilTicks frac') (hwday : a.tm_wday = b.tm_wday) (hisdst : a.tm_isdst = b.tm_isdst) :
    a = b ∧ tns = tns' := by
  obtain ⟨hdays, hrest⟩ := ha.ticks_parts
  obtain ⟨hdays', hrest'⟩ := hb.ticks_parts
  rw [hticks] at hdays hrest
  have hdate := ha.valid.number_injective hb.valid (hdays.symm.trans hdays')
  have hrests := hrest.symm.trans hrest'
  have hyday := ha.yday_eq.trans ((congrArg Date.yearDay hdate).trans hb.yday_eq.symm)
  obtain ⟨-, hhour, hmin, hsec, hfrac, htns, -⟩ := ha
  obtain ⟨-, hhour', hmin', hsec', hfrac', htns', -⟩ := hb
  rw [tm.date, tm.date, Date.mk.injEq, TM_YEAR_BASE] at hdate
  obtain ⟨hyear, hmon, hmday⟩ := hdate
  clear hdays hrest hdays' hrest' hticks
  simp only [tm.seconds] at hrests
  rw [K_100NS_PER_SEC, SECS_PER_MIN, MINS_PER_HOUR] at *
  rw [HOURS_PER_DAY] at *
  have hf : frac = frac' := by omega
  have hs : a.tm_sec.toInt = b.tm_sec.toInt := by omega
  have hm : a.tm_min.toInt = b.tm_min.toInt := by omega
  have hh : a.tm_hour.toInt = b.tm_hour.toInt := by omega
  refine ⟨tm.ext_toInt hs hm hh hyday ⟨BitVec.eq_of_toInt_eq hmday, BitVec.eq_of_toNat_eq hmon,
    BitVec.eq_of_toInt_eq (by omega), hisdst⟩ hwday, BitVec.eq_of_toInt_eq ?_⟩
  rw [htns, htns', hf]

theorem toInt_word {x : ℤ} (hlow : -2 ^ 31 ≤ x) (hhigh : x < 2 ^ 31) : (BitVec.ofInt 32 x).toInt = x := by
  rw [BitVec.toInt_ofInt, Int.bmod_eq_of_le (by omega) (by omega)]

theorem monthLength_le (leap : Bool) : ∀ month < 12, monthLength leap month ≤ 31 := by cases leap <;> decide

theorem yearLength_le (leap : Bool) : yearLength leap ≤ 366 := by cases leap <;> decide

/-- The local time that `splittime` takes apart. -/
def localTime (t : UTCValue) (offset : ℤ) : UTCValue := UTCadd (emul (.ofInt 32 offset) (.ofInt 32 K_100NS_PER_SEC)).value t

theorem splityear_spec {v : ℤ} (hv : InRange v) :
    ∃ year yday, splityear (decide (v < 0))
        (v / K_100NS_PER_DAY + (if v < 0 then JULIAN_OFFSET else GREGORIAN_OFFSET) - 1) = (year, yday) ∧
      0 ≤ yday ∧ yday < yearLength (leapYear year) ∧ -1000000 < year ∧ year < 1000000 ∧
      ((v < 0 ∧ year ≤ 1582 ∧ julianStart year + yday = v / K_100NS_PER_DAY + (julianStart 1582 + 277)) ∨
        (0 ≤ v ∧ 1582 ≤ year ∧ gregorianStart year + yday = v / K_100NS_PER_DAY + (gregorianStart 1582 + 287))) := by
  have hjulian : JULIAN_OFFSET - 1 = julianStart 1582 + 277 := by decide
  have hgregorian : GREGORIAN_OFFSET - 1 = gregorianStart 1582 + 287 := by decide
  have hday : K_100NS_PER_DAY = 864000000000 := by decide
  rw [InRange] at hv
  obtain ⟨D, hD⟩ : ∃ D, D = v / K_100NS_PER_DAY := ⟨_, rfl⟩
  have hbounds : (v < 0 → D < 0) ∧ (0 ≤ v → 0 ≤ D) ∧ -20000000 < D ∧ D < 20000000 := by
    rw [hday] at hD
    omega
  rw [← hD]
  clear hD hv hday
  by_cases hneg : v < 0
  · rw [decide_eq_true hneg, if_pos hneg, Int.add_sub_assoc, hjulian]
    obtain ⟨year, yday, hsplit, hdays, hlow, hhigh⟩ := splityear_julian (D + (julianStart 1582 + 277))
    have hyear : year ≤ 1582 := by
      by_contra hlater
      have hmono := julianStart_mono (show 1582 + 1 ≤ year by omega)
      rw [julianStart_leapYear le_rfl] at hmono
      have hlen : yearLength (leapYear 1582) = 365 := by decide
      have hD := hbounds.1 hneg
      omega
    have hleap : leapYear year = decide (year % 4 = 0) := by rw [leapYear, if_neg (by omega)]
    have hsize : -1000000 < year := by
      rw [julianStart, julianStart] at hdays
      rw [yearLength] at hhigh
      split_ifs at hhigh <;> omega
    exact ⟨year, yday, hsplit, hlow, by rwa [hleap], hsize, by omega, .inl ⟨hneg, hyear, hdays.symm⟩⟩
  · rw [decide_eq_false hneg, if_neg hneg, Int.add_sub_assoc, hgregorian]
    have hD := hbounds.2.1 (not_lt.mp hneg)
    have hstart : 0 ≤ gregorianStart 1582 := by decide
    obtain ⟨year, yday, hsplit, hdays, hlow, hhigh⟩ :=
      splityear_gregorian (show 0 ≤ D + (gregorianStart 1582 + 287) by omega)
    have hyear : 1582 ≤ year := by
      by_contra hearlier
      have hmono := gregorianStart_mono (show year + 1 ≤ 1582 by omega)
      rw [gregorianStart_succ] at hmono
      omega
    have hleap : yearLength (leapYear year) =
        yearLength (decide ((year % 4 = 0 ∧ year % 100 ≠ 0) ∨ year % 400 = 0)) := by
      have hnext := gregorianStart_succ year
      rw [gregorianStart_leapYear hyear] at hnext
      omega
    have hsize : year < 1000000 := by
      rw [gregorianStart, gregorianStart] at hdays
      omega
    exact ⟨year, yday, hsplit, hlow, by rwa [hleap], by omega, hsize, .inr ⟨not_lt.mp hneg, hyear, hdays.symm⟩⟩

theorem weekday_word {x : ℤ} : (BitVec.ofInt 32 (if x.tmod DAYS_PER_WEEK < 0 then x.tmod DAYS_PER_WEEK + DAYS_PER_WEEK
    else x.tmod DAYS_PER_WEEK)).toInt = x % 7 := by
  obtain ⟨hsum, hlow, hhigh, -, -⟩ := tdiv_tmod_spec x (d := 7) (by decide)
  rw [DAYS_PER_WEEK]
  generalize x.tdiv 7 = q at *
  generalize x.tmod 7 = r at *
  rw [toInt_word] <;> split_ifs <;> omega

theorem splittime_spec (t : UTCValue) (offset : ℤ) :
    ∃ timetm tns frac, splittime t offset = .ok (timetm, tns) ∧ IsCivil timetm tns frac ∧
      timetm.civilTicks frac = (localTime t offset).toInt ∧ timetm.tm_isdst = -1 ∧
      timetm.tm_wday.toInt =
        (if (localTime t offset).toInt < 0 then timetm.date.number else timetm.date.number + 5) % 7 := by
  obtain ⟨tns, seconds, frac, hdays, hrest, hfrac, hfrac', hsec, hsec', htns⟩ : SplitsTo (localTime t offset)
      (if (localTime t offset).toInt < 0 then JULIAN_OFFSET else GREGORIAN_OFFSET) := by
    split_ifs with hneg
    · exact splitdays_negative hneg
    · exact splitdays_nonneg (not_lt.mp hneg).not_gt
  obtain ⟨year, yday, hyear, hyday, hyday', hlow, hhigh, hcases⟩ := splityear_spec (toInt_inRange (localTime t offset))
  obtain ⟨month, mday, hmonth, hmon, hmday, hmday', hdate⟩ := splitmonth_spec hyday hyday'
  have hneg : decide ((localTime t offset).toInt < 0) = IsUTCneg (localTime t offset) := by
    rw [Bool.eq_iff_iff, IsUTCneg_iff, decide_eq_true_eq]
  have hlengths := monthLength_le (leapYear year) month hmon
  have hlengths' := yearLength_le (leapYear year)
  rw [hneg] at hyear
  obtain ⟨timetm, htimetm⟩ : ∃ timetm : tm, timetm =
    { tm_sec := .ofInt 32 ((seconds.tmod SECS_PER_HOUR).tmod SECS_PER_MIN)
      tm_min := .ofInt 32 ((seconds.tmod SECS_PER_HOUR).tdiv SECS_PER_MIN)
      tm_hour := .ofInt 32 (seconds.tdiv SECS_PER_HOUR)
      tm_mday := .ofInt 32 mday
      tm_mon := .ofNat 32 month
      tm_year := .ofInt 32 (year - TM_YEAR_BASE)
      tm_wday := .ofInt 32 (if (UTC_WDAY + ((localTime t offset).toInt / K_100NS_PER_DAY +
          (if (localTime t offset).toInt < 0 then JULIAN_OFFSET else GREGORIAN_OFFSET) - 1)).tmod DAYS_PER_WEEK < 0 then
        (UTC_WDAY + ((localTime t offset).toInt / K_100NS_PER_DAY +
          (if (localTime t offset).toInt < 0 then JULIAN_OFFSET else GREGORIAN_OFFSET) - 1)).tmod DAYS_PER_WEEK + DAYS_PER_WEEK
        else (UTC_WDAY + ((localTime t offset).toInt / K_100NS_PER_DAY +
          (if (localTime t offset).toInt < 0 then JULIAN_OFFSET else GREGORIAN_OFFSET) - 1)).tmod DAYS_PER_WEEK)
      tm_yday := .ofInt 32 yday
      tm_isdst := -1 } := ⟨_, rfl⟩
  have hsplit : splittime t offset = .ok (timetm, tns) := by
    rw [splittime]
    dsimp only
    rw [show UTCadd (emul (.ofInt 32 offset) (.ofInt 32 K_100NS_PER_SEC)).value t = localTime t offset from rfl,
      bind_of_ok _ hdays]
    dsimp only
    rw [hyear]
    dsimp only
    rw [hmonth, htimetm]
  have hymd : timetm.date = ⟨year, month, mday⟩ := by
    rw [tm.date, htimetm]
    dsimp only
    rw [TM_YEAR_BASE, toInt_word (by omega) (by omega), toInt_word (by omega) (by omega), BitVec.toNat_ofNat, Date.mk.injEq]
    exact ⟨by omega, by omega, rfl⟩
  have hyearDay : (Date.mk year month mday).yearDay = yday := hdate
  have hnumber : (Date.mk year month mday).Valid ∧ (Date.mk year month mday).number =
      (localTime t offset).toInt / K_100NS_PER_DAY := by
    obtain ⟨hsign, hyear', hday⟩ | ⟨hsign, hyear', hday⟩ := hcases
    · have hbefore := Int.ediv_neg_of_neg_of_pos hsign (b := K_100NS_PER_DAY) (by decide)
      obtain ⟨hvalid, hnumber⟩ := Date.julian_valid (d := ⟨year, month, mday⟩) hmon hmday hmday' hyear'
        (by rw [hyearDay]; dsimp only; omega)
      refine ⟨hvalid, ?_⟩
      rw [hyearDay] at hnumber
      dsimp only at hnumber
      omega
    · have hsince := Int.ediv_nonneg hsign (b := K_100NS_PER_DAY) (by decide)
      obtain ⟨hvalid, hnumber⟩ := Date.gregorian_valid (d := ⟨year, month, mday⟩) hmon hmday hmday' hyear'
        (by rw [hyearDay]; dsimp only; omega)
      refine ⟨hvalid, ?_⟩
      rw [hyearDay] at hnumber
      dsimp only at hnumber
      omega
  have hwday : timetm.tm_wday.toInt =
      (if (localTime t offset).toInt < 0 then timetm.date.number else timetm.date.number + 5) % 7 := by
    have hjulian : JULIAN_OFFSET = 577738 := by decide
    have hgregorian : GREGORIAN_OFFSET = 577736 := by decide
    rw [hymd, hnumber.2, htimetm]
    dsimp only
    rw [weekday_word, UTC_WDAY, hjulian, hgregorian]
    split_ifs <;> omega
  rw [SECS_PER_DAY] at hsec'
  have hclock : timetm.tm_hour.toInt = seconds / 3600 ∧ timetm.tm_min.toInt = seconds % 3600 / 60 ∧
      timetm.tm_sec.toInt = seconds % 3600 % 60 := by
    rw [htimetm]
    dsimp only
    rw [SECS_PER_HOUR, SECS_PER_MIN, Int.tmod_eq_emod_of_nonneg hsec, Int.tdiv_eq_ediv_of_nonneg hsec,
      Int.tdiv_eq_ediv_of_nonneg (by omega), Int.tmod_eq_emod_of_nonneg (by omega), toInt_word (by omega) (by omega),
      toInt_word (by omega) (by omega), toInt_word (by omega) (by omega)]
    exact ⟨rfl, rfl, rfl⟩
  obtain ⟨hhour, hmin, hsecond⟩ := hclock
  have hseconds : timetm.seconds = seconds := by
    rw [tm.seconds, hhour, hmin, hsecond, MINS_PER_HOUR, SECS_PER_MIN]
    omega
  have hyday_eq : timetm.tm_yday.toInt = timetm.date.yearDay := by
    rw [hymd, hyearDay, htimetm]
    exact toInt_word (by omega) (by omega)
  refine ⟨timetm, tns, frac, hsplit, ⟨by rw [hymd]; exact hnumber.1, ?_, ?_, ?_, ⟨hfrac, hfrac'⟩, htns, hyday_eq⟩, ?_,
    by rw [htimetm], hwday⟩
  · rw [hhour, HOURS_PER_DAY]
    omega
  · rw [hmin, MINS_PER_HOUR]
    omega
  · rw [hsecond, SECS_PER_MIN]
    omega
  · rw [tm.civilTicks, hymd, hnumber.2, hseconds, ← hrest, Int.mul_comm]
    exact Int.mul_ediv_add_emod _ _

end dce.dts
