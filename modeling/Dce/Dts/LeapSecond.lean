import Dce.Lib.System
import Dce.Dts.MergeTime

namespace dce.dts

open lib

/-- `IsLeapYear` of the service, which has no Julian calendar. -/
def service.IsLeapYear (year : ℤ) : Bool := (year % 4 == 0 && year % 100 != 0) || year % 400 == 0

def daysInMonth : List (BitVec 32) := [31, 28, 31, 30, 31, 30, 31, 31, 30, 31, 30, 31]

def lastDayOfMonth (tmtime : tm) : Except Failure (BitVec 32) :=
  if tmtime.tm_mon = 1 ∧ service.IsLeapYear (tmtime.tm_year + 1900).toInt then .ok 29
  else
    match daysInMonth[tmtime.tm_mon.toNat]? with
    | none => .error .undefined
    | some days => .ok days

def followingMonth (tmtime : tm) : tm :=
  let tmtime := { tmtime with tm_mon := tmtime.tm_mon + 1 }
  if tmtime.tm_mon.toInt > 11 then { tmtime with tm_mon := 0, tm_year := tmtime.tm_year + 1 } else tmtime

def inLastSecond (tmtime : tm) (lastDay : BitVec 32) : Bool :=
  decide (tmtime.tm_sec.toInt ≥ 59) && decide (tmtime.tm_hour = 23) && decide (tmtime.tm_min = 59) &&
    decide (tmtime.tm_mday = lastDay)

/-- The times of a synchronization that the leap second depends on. -/
structure LeapTimes where
  TlastLS : UTCValue
  nextLS : UTCValue
  deriving DecidableEq, Repr

section

variable (order : ByteOrder)

/-- The part of `CalcNextLS` that computes; what fails is a `BugCheck`. -/
def computeNextLS (interval : UTCValue) : Except Failure UTCValue := do
  let utcTime ← utc_mkcomptime ⟨order, .b32⟩ interval none 0
  let ((tmtime, _), _) ← utc_gmtime order utcTime
  let lastDay ← lastDayOfMonth tmtime
  let last := inLastSecond tmtime lastDay
  let tmtime := if last then followingMonth tmtime else tmtime
  let lastDay ← if last then lastDayOfMonth tmtime else .ok lastDay
  let tmtime := { tmtime with tm_sec := 59, tm_min := 59, tm_hour := 23, tm_mday := lastDay }
  let utcTime ← utc_mkgmtime order tmtime 0 none 0
  let (nextLS, _, _) ← utc_comptime ⟨order, .b32⟩ utcTime
  .ok nextLS

/-- `CalcNextLS`, where only the time that is kept has its overflow put right. -/
def CalcNextLS (s : LeapTimes) (T : UTCValue) (I : ExtInacc) : Except Failure (UTCValue × LeapTimes) :=
  if !IsInfiniteInacc I then
    let sum := UTCadd T I
    let T' := if IsUTCneg sum then UTCinit 0xffffffff 0x7fffffff else sum
    if !IsUTClt T' s.TlastLS && IsUTClt T' s.nextLS then .ok (s.nextLS, s)
    else do
      let nextLS ← computeNextLS order (UTCadd I T)
      .ok (nextLS, { s with TlastLS := T' })
  else .ok (s.nextLS, s)

/-- Calls of `CalcNextLS`, each of whose results is stored in `baseTimes.nextLS`. -/
def leapSystem : System LeapTimes (UTCValue × ExtInacc) where
  init s := s.TlastLS = UTCinit 0xffffffff 0x7fffffff
  step s call :=
    match CalcNextLS order s call.1 call.2 with
    | .error _ => none
    | .ok (nextLS, s') => some { s' with nextLS }

end

/-! The last seconds of the months -/

def lastSecond (d : Date) : ℤ := d.number * K_100NS_PER_DAY + (SECS_PER_DAY - 1) * K_100NS_PER_SEC

def IsLastSecond (v : ℤ) : Prop := ∃ year month, month < 12 ∧ v = lastSecond (Date.monthEnd year month)

def lastSecondsAfter (x : ℤ) : Set ℤ := {v | IsLastSecond v ∧ x < v}

/-- The last day of the month whose last second is the next one after a time of a day. -/
def nextMonthEnd (x : ℤ) (d : Date) : Date :=
  if x < lastSecond (Date.monthEnd d.year d.month) then Date.monthEnd d.year d.month
  else if d.month = 11 then Date.monthEnd (d.year + 1) 0
  else Date.monthEnd d.year (d.month + 1)

variable {d d' : Date} {x : ℤ}

theorem lastSecond_le (hle : d.number ≤ d'.number) : lastSecond d ≤ lastSecond d' := by
  have hday : K_100NS_PER_DAY = 864000000000 := by decide
  rw [lastSecond, lastSecond, hday]
  omega

theorem lastSecond_injective (hd : d.Valid) (hd' : d'.Valid) (hsame : lastSecond d = lastSecond d') : d = d' := by
  refine hd.number_injective hd' ?_
  have hday : K_100NS_PER_DAY = 864000000000 := by decide
  rw [lastSecond, lastSecond, hday] at hsame
  omega

theorem monthEnd_le {year year' : ℤ} {month month' : ℕ} (hmonth : month < 12) (hmonth' : month' < 12)
    (hle : year * 12 + month ≤ year' * 12 + month') :
    lastSecond (Date.monthEnd year month) ≤ lastSecond (Date.monthEnd year' month') := by
  apply lastSecond_le
  obtain heq | hlt := hle.eq_or_lt
  · have hyear : year = year' := by omega
    have hsame : month = month' := by omega
    rw [hyear, hsame]
  · exact ((Date.monthEnd_valid hmonth).number_lt_of_month (Date.monthEnd_valid hmonth') hlt).le

variable {year : ℤ} {month : ℕ} {I : ExtInacc} {tmtime : tm} {s : LeapTimes} {v : UTCValue} {e : Date}

theorem monthEnd_lt (hd : d.Valid) (hday : x / K_100NS_PER_DAY = d.number) (hmonth : month < 12)
    (hearlier : year * 12 + month < d.monthIndex) : lastSecond (Date.monthEnd year month) ≤ x := by
  have hnumber := (Date.monthEnd_valid hmonth).number_lt_of_month hd hearlier
  have hK : K_100NS_PER_DAY = 864000000000 := by decide
  have hsec : SECS_PER_DAY = 86400 ∧ K_100NS_PER_SEC = 10000000 := by decide
  rw [lastSecond, hK, hsec.1, hsec.2]
  rw [hK] at hday
  omega

theorem lt_monthEnd (hd : d.Valid) (hday : x / K_100NS_PER_DAY = d.number) (hmonth : month < 12)
    (hlater : d.monthIndex < year * 12 + month) : x < lastSecond (Date.monthEnd year month) := by
  have hnumber := hd.number_lt_of_month (Date.monthEnd_valid hmonth) hlater
  have hK : K_100NS_PER_DAY = 864000000000 := by decide
  have hsec : SECS_PER_DAY = 86400 ∧ K_100NS_PER_SEC = 10000000 := by decide
  rw [lastSecond, hK, hsec.1, hsec.2]
  rw [hK] at hday
  omega

theorem nextMonthEnd_eq (hd : d.Valid) : ∃ year month, month < 12 ∧ nextMonthEnd x d = Date.monthEnd year month ∧
    (x < lastSecond (Date.monthEnd d.year d.month) → year * 12 + month = d.monthIndex) ∧
    (lastSecond (Date.monthEnd d.year d.month) ≤ x → year * 12 + month = d.monthIndex + 1) := by
  have hmonth := hd.month_lt
  rw [nextMonthEnd, Date.monthIndex]
  by_cases hbefore : x < lastSecond (Date.monthEnd d.year d.month)
  · exact ⟨d.year, d.month, hmonth, if_pos hbefore, fun _ => rfl, fun h => absurd hbefore (not_lt.mpr h)⟩
  · rw [if_neg hbefore]
    by_cases hlast : d.month = 11
    · exact ⟨d.year + 1, 0, by decide, if_pos hlast, fun h => absurd h hbefore, fun _ => by omega⟩
    · exact ⟨d.year, d.month + 1, by omega, if_neg hlast, fun h => absurd h hbefore, fun _ => by omega⟩

theorem nextMonthEnd_isLeast (hd : d.Valid) (hday : x / K_100NS_PER_DAY = d.number) :
    IsLeast (lastSecondsAfter x) (lastSecond (nextMonthEnd x d)) := by
  obtain ⟨year, month, hmonth, hnext, hsame, hfollowing⟩ := nextMonthEnd_eq (x := x) hd
  rw [hnext]
  constructor
  · refine ⟨⟨year, month, hmonth, rfl⟩, ?_⟩
    by_cases hbefore : x < lastSecond (Date.monthEnd d.year d.month)
    · have hindex := hsame hbefore
      have hle := monthEnd_le hd.month_lt hmonth (le_of_eq hindex.symm)
      omega
    · have hindex := hfollowing (not_lt.mp hbefore)
      exact lt_monthEnd hd hday hmonth (by omega)
  · rintro v ⟨⟨year', month', hmonth', rfl⟩, hlater⟩
    apply monthEnd_le hmonth hmonth'
    by_contra hearlier
    by_cases hbefore : x < lastSecond (Date.monthEnd d.year d.month)
    · have hindex := hsame hbefore
      exact absurd (monthEnd_lt hd hday hmonth' (by omega)) (not_le.mpr hlater)
    · have hindex := hfollowing (not_lt.mp hbefore)
      rw [Date.monthIndex] at hindex
      have hle : lastSecond (Date.monthEnd year' month') ≤ lastSecond (Date.monthEnd d.year d.month) :=
        monthEnd_le hmonth' hd.month_lt (by omega)
      omega

/-! What is computed -/

def serviceMonthEnd (year : ℤ) (month : ℕ) : Date := ⟨year, month, monthLength (service.IsLeapYear year) month⟩

def CenturyFebruary (d : Date) : Prop := d.month = 1 ∧ d.year ≤ 1582 ∧ d.year % 100 = 0 ∧ d.year % 400 ≠ 0

instance (d : Date) : Decidable (CenturyFebruary d) := inferInstanceAs (Decidable (_ ∧ _))

theorem service_leapYear : service.IsLeapYear year = decide ((year % 4 = 0 ∧ year % 100 ≠ 0) ∨ year % 400 = 0) := by
  rw [service.IsLeapYear, Bool.eq_iff_iff]
  simp

theorem service_leapYear_eq (hkept : ¬(year ≤ 1582 ∧ year % 100 = 0 ∧ year % 400 ≠ 0)) :
    service.IsLeapYear year = leapYear year := by
  rw [service_leapYear, leapYear]
  split_ifs with hlater
  · rfl
  · apply decide_eq_decide.mpr
    omega

theorem monthLength_leap (hmonth : month ≠ 1) (leap leap' : Bool) : monthLength leap month = monthLength leap' month := by
  match month with
  | 0 => rfl
  | 1 => exact absurd rfl hmonth
  | n + 2 => rfl

theorem serviceMonthEnd_eq (hkept : ¬CenturyFebruary (Date.monthEnd year month)) :
    serviceMonthEnd year month = Date.monthEnd year month := by
  rw [serviceMonthEnd, Date.monthEnd, Date.mk.injEq]
  refine ⟨rfl, rfl, ?_⟩
  by_cases hfebruary : month = 1
  · have hleap : service.IsLeapYear year = leapYear year := service_leapYear_eq fun hcentury => hkept ⟨hfebruary, hcentury⟩
    rw [hleap]
  · exact monthLength_leap hfebruary _ _

theorem serviceMonthEnd_century (hcentury : CenturyFebruary (Date.monthEnd year month)) :
    (serviceMonthEnd year month).day = 28 ∧ (Date.monthEnd year month).day = 29 := by
  obtain ⟨hmonth, hyear, hhundred, hfour⟩ := hcentury
  obtain rfl : month = 1 := hmonth
  have hyear' : year ≤ 1582 := hyear
  have hhundred' : year % 100 = 0 := hhundred
  have hfour' : year % 400 ≠ 0 := hfour
  have hservice : service.IsLeapYear year = false := by
    rw [service_leapYear, decide_eq_false_iff_not]
    omega
  have hleap : leapYear year = true := by
    rw [leapYear, if_neg (by omega), decide_eq_true_eq]
    omega
  exact ⟨by rw [serviceMonthEnd, hservice]; rfl, by rw [Date.monthEnd, hleap]; rfl⟩

theorem serviceMonthEnd_valid (hmonth : month < 12) :
    (serviceMonthEnd year month).Valid ∧ (serviceMonthEnd year month).day ≤ (Date.monthEnd year month).day ∧
      28 ≤ (serviceMonthEnd year month).day ∧ (serviceMonthEnd year month).day ≤ 31 := by
  by_cases hcentury : CenturyFebruary (Date.monthEnd year month)
  · obtain ⟨hday, hday'⟩ := serviceMonthEnd_century hcentury
    refine ⟨⟨hmonth, by omega, ?_, by omega⟩, by omega, by omega, by omega⟩
    rw [hday]
    exact (by omega : (28 : ℤ) ≤ 29).trans (le_of_eq hday'.symm)
  · rw [serviceMonthEnd_eq hcentury]
    exact ⟨Date.monthEnd_valid hmonth, le_rfl, Date.monthLength_bounds _ month hmonth⟩

theorem daysInMonth_get : ∀ month < 12, daysInMonth[month]?.map BitVec.toInt = some (monthLength false month) := by decide

theorem lastDayOfMonth_spec (hmonth : tmtime.tm_mon.toNat < 12)
    (hyear : (tmtime.tm_year + 1900).toInt = tmtime.date.year) :
    ∃ lastDay, lastDayOfMonth tmtime = .ok lastDay ∧
      lastDay.toInt = (serviceMonthEnd tmtime.date.year tmtime.date.month).day := by
  have hmon : tmtime.tm_mon = 1 ↔ tmtime.date.month = 1 := by
    rw [← BitVec.toNat_inj]
    rfl
  rw [lastDayOfMonth, hyear]
  by_cases hfebruary : tmtime.tm_mon = 1 ∧ service.IsLeapYear tmtime.date.year = true
  · refine ⟨29, if_pos hfebruary, ?_⟩
    rw [serviceMonthEnd, hfebruary.2, hmon.mp hfebruary.1]
    rfl
  · obtain ⟨days, hget, hdays⟩ := Option.map_eq_some_iff.mp (daysInMonth_get tmtime.tm_mon.toNat hmonth)
    rw [if_neg hfebruary, hget]
    refine ⟨days, rfl, ?_⟩
    have hlength : monthLength (service.IsLeapYear tmtime.date.year) tmtime.date.month = monthLength false tmtime.date.month := by
      by_cases hmonth' : tmtime.date.month = 1
      · rw [Bool.not_eq_true _ |>.mp fun hleap => hfebruary ⟨hmon.mpr hmonth', hleap⟩]
      · exact monthLength_leap hmonth' _ _
    rw [serviceMonthEnd, hlength]
    exact hdays

theorem year_small {timetm : tm} {tns : BitVec 32} {frac : ℤ} (htm : IsCivil timetm tns frac)
    (hticks : timetm.civilTicks frac = v.toInt) : -40000 < timetm.date.year ∧ timetm.date.year < 40000 := by
  obtain ⟨hpos, hneg⟩ := htm.valid.year_bounds
  have hnumber := htm.ticks_parts.1
  have hrange := toInt_inRange v
  have hday : K_100NS_PER_DAY = 864000000000 := by decide
  rw [hticks, hday] at hnumber
  rw [InRange] at hrange
  have hgregorian : gregorianStart 1582 = 577448 := by decide
  have hjulian : julianStart 1582 = 577460 := by decide
  rw [hgregorian] at hpos
  rw [hjulian] at hneg
  simp only [gregorianStart] at hpos
  simp only [julianStart] at hneg
  omega

def atLastSecond (tmtime : tm) (lastDay : BitVec 32) : tm :=
  { tmtime with tm_sec := 59, tm_min := 59, tm_hour := 23, tm_mday := lastDay }

theorem mergetime_yday (timetm : tm) (tns yday : BitVec 32) : mergetime { timetm with tm_yday := yday } tns = mergetime timetm tns := rfl

theorem mergetime_atLastSecond {lastDay : BitVec 32} (he : e.Valid)
    (hyear : tmtime.date.year = e.year) (hmonth : tmtime.date.month = e.month) (hday : lastDay.toInt = e.day) :
    (MergedYear e.year → ∃ secs, mergetime (atLastSecond tmtime lastDay) 0 =
      .ok (.ofInt 64 (lastSecond e + leapError e.year * K_100NS_PER_DAY), secs)) ∧
    (¬MergedYear e.year → mergetime (atLastSecond tmtime lastDay) 0 = .error .invalid) := by
  have hdate : (atLastSecond tmtime lastDay).date = e := by
    rw [tm.date, atLastSecond, Date.mk.injEq]
    exact ⟨hyear, hmonth, hday⟩
  constructor
  · intro hmerged
    have hyday : (BitVec.ofInt 32 e.yearDay).toInt = e.yearDay := by
      obtain ⟨hlow, hhigh⟩ := he.yearDay_bounds
      have hle := yearLength_le (leapYear e.year)
      exact toInt_word (by omega) (by omega)
    obtain ⟨timetm, htimetm⟩ : ∃ timetm : tm, timetm = { atLastSecond tmtime lastDay with tm_yday := .ofInt 32 e.yearDay } :=
      ⟨_, rfl⟩
    have hsame : timetm.date = e := by
      rw [htimetm]
      exact hdate
    have hclock : timetm.tm_hour = 23 ∧ timetm.tm_min = 59 ∧ timetm.tm_sec = 59 := by
      rw [htimetm]
      exact ⟨rfl, rfl, rfl⟩
    obtain ⟨hhour, hmin, hsec⟩ := hclock
    have hcivil : IsCivil timetm 0 0 := by
      refine ⟨by rwa [hsame], by rw [hhour]; decide, by rw [hmin]; decide, by rw [hsec]; decide, by decide, by decide, ?_⟩
      rw [hsame, htimetm]
      exact hyday
    have hticks : timetm.civilTicks 0 = lastSecond e := by
      rw [tm.civilTicks, tm.seconds, hsame, hhour, hmin, hsec]
      rfl
    have hmerge := mergetime_spec hcivil (by rwa [hsame])
    rw [hticks, hsame, htimetm, mergetime_yday] at hmerge
    exact ⟨_, hmerge⟩
  · intro hmerged
    apply mergetime_fails
    rwa [hdate]

/-- The last day that the service goes to from a date. -/
def serviceNext (d : Date) (last : Bool) : Date :=
  if last then
    if d.month = 11 then serviceMonthEnd (d.year + 1) 0 else serviceMonthEnd d.year (d.month + 1)
  else serviceMonthEnd d.year d.month

theorem followingMonth_spec (hmonth : tmtime.date.month < 12) (hyear : -40000 < tmtime.date.year)
    (hyear' : tmtime.date.year < 40000) :
    (followingMonth tmtime).date.month < 12 ∧
      ((followingMonth tmtime).tm_year + 1900).toInt = (followingMonth tmtime).date.year ∧
      serviceNext tmtime.date true = serviceMonthEnd (followingMonth tmtime).date.year (followingMonth tmtime).date.month := by
  have hone : (1 : BitVec 32).toInt = 1 := by decide
  have hbase : (1900 : BitVec 32).toInt = 1900 := by decide
  have hmon : tmtime.tm_mon.toInt = tmtime.date.month := by
    change tmtime.tm_mon.toNat < 12 at hmonth
    exact BitVec.toInt_eq_toNat_of_lt (by omega)
  have htm_year : tmtime.tm_year.toInt = tmtime.date.year - 1900 := by
    change _ = tmtime.tm_year.toInt + TM_YEAR_BASE - 1900
    rw [TM_YEAR_BASE]
    omega
  have hnext : (tmtime.tm_mon + 1).toInt = tmtime.date.month + 1 := by rw [toInt_add_small, hone, hmon] <;> omega
  have hcond : (tmtime.tm_mon + 1).toInt > 11 ↔ tmtime.date.month = 11 := by omega
  rw [followingMonth, serviceNext, if_pos rfl]
  dsimp only
  by_cases hlast : tmtime.date.month = 11
  · have hyears : (tmtime.tm_year + 1).toInt = tmtime.date.year - 1899 := by rw [toInt_add_small, hone, htm_year] <;> omega
    have hdate : ({ tmtime with tm_mon := 0, tm_year := tmtime.tm_year + 1 } : tm).date =
        ⟨tmtime.date.year + 1, 0, tmtime.date.day⟩ := by
      rw [tm.date]
      dsimp only
      rw [hyears, TM_YEAR_BASE, Date.mk.injEq]
      exact ⟨by omega, rfl, rfl⟩
    rw [if_pos (hcond.mpr hlast), if_pos hlast, hdate]
    refine ⟨(by decide : 0 < 12), ?_, rfl⟩
    dsimp only
    rw [toInt_add_small, hbase, hyears] <;> omega
  · have hdate : ({ tmtime with tm_mon := tmtime.tm_mon + 1 } : tm).date =
        ⟨tmtime.date.year, tmtime.date.month + 1, tmtime.date.day⟩ := by
      have hmonths : (tmtime.tm_mon + 1).toNat = tmtime.date.month + 1 := by
        change tmtime.tm_mon.toNat < 12 at hmonth
        change _ = tmtime.tm_mon.toNat + 1
        rw [BitVec.toNat_add]
        change (tmtime.tm_mon.toNat + 1) % 2 ^ 32 = _
        omega
      rw [tm.date]
      dsimp only
      rw [hmonths]
      rfl
    rw [if_neg (mt hcond.mp hlast), if_neg hlast, hdate]
    refine ⟨?_, ?_, rfl⟩
    · dsimp only
      omega
    · dsimp only
      rw [toInt_add_small, hbase, htm_year] <;> omega

/-- The clock is in the last second of the day that the service counts as the last one. -/
def InServiceLastSecond (v : ℤ) (d : Date) : Prop :=
  d.day = (serviceMonthEnd d.year d.month).day ∧ (SECS_PER_DAY - 1) * K_100NS_PER_SEC ≤ v % K_100NS_PER_DAY

theorem inLastSecond_iff {timetm : tm} {tns lastDay : BitVec 32} {frac : ℤ} (htm : IsCivil timetm tns frac)
    (hlast : lastDay.toInt = (serviceMonthEnd timetm.date.year timetm.date.month).day) :
    inLastSecond timetm lastDay = true ↔ InServiceLastSecond (timetm.civilTicks frac) timetm.date := by
  have hrest := htm.ticks_parts.2
  obtain ⟨-, hhour, hmin, hsec, hfrac, -, -⟩ := htm
  have hhour' : timetm.tm_hour = 23 ↔ timetm.tm_hour.toInt = 23 := by
    rw [← BitVec.toInt_inj]
    rfl
  have hmin' : timetm.tm_min = 59 ↔ timetm.tm_min.toInt = 59 := by
    rw [← BitVec.toInt_inj]
    rfl
  have hday : timetm.tm_mday = lastDay ↔ timetm.date.day = (serviceMonthEnd timetm.date.year timetm.date.month).day := by
    rw [← BitVec.toInt_inj, hlast]
    rfl
  have hconst : HOURS_PER_DAY = 24 ∧ MINS_PER_HOUR = 60 ∧ SECS_PER_MIN = 60 ∧ SECS_PER_DAY = 86400 ∧
      K_100NS_PER_SEC = 10000000 := by decide
  obtain ⟨hhours, hmins, hsecs, hdays, hticks⟩ := hconst
  rw [InServiceLastSecond, hrest, tm.seconds, inLastSecond, Bool.and_eq_true, Bool.and_eq_true, Bool.and_eq_true,
    decide_eq_true_eq, decide_eq_true_eq, decide_eq_true_eq, decide_eq_true_eq, hhour', hmin', hday, hdays, hticks, hmins, hsecs]
  rw [hhours] at hhour
  rw [hmins] at hmin
  rw [hsecs] at hsec
  rw [hticks] at hfrac
  constructor
  · rintro ⟨⟨⟨hlate, hhour⟩, hmin⟩, hend⟩
    exact ⟨hend, by omega⟩
  · rintro ⟨hend, hlate⟩
    exact ⟨⟨⟨by omega, by omega⟩, by omega⟩, hend⟩

theorem mkcomptime_none_reads (order : ByteOrder) (time : UTCValue) : ∃ utc tdf,
    utc_mkcomptime ⟨order, .b32⟩ time none 0 = .ok utc ∧
      utc_comptime ⟨order, .b32⟩ utc = .ok (time, K_INFINITE_INACC, tdf) := by
  refine ⟨_, (BitVec.ofInt 12 ((0 : ℤ).tdiv SECS_PER_MIN)).toInt * SECS_PER_MIN, utc_mkcomptime_long32 order time none 0, ?_⟩
  rw [utc_comptime_long32, setWidth_givenInacc]
  rfl

theorem last_second_time (order : ByteOrder) {lastDay : BitVec 32} (he : e.Valid)
    (hyear : tmtime.date.year = e.year) (hmonth : tmtime.date.month = e.month) (hday : lastDay.toInt = e.day) :
    (utc_mkgmtime order (atLastSecond tmtime lastDay) 0 none 0 >>= fun utcTime =>
      utc_comptime ⟨order, .b32⟩ utcTime >>= fun members => .ok members.1) =
    if MergedYear e.year then .ok (.ofInt 64 (lastSecond e + leapError e.year * K_100NS_PER_DAY)) else .error .invalid := by
  obtain ⟨hmerged, hfails⟩ := mergetime_atLastSecond he hyear hmonth hday
  obtain ⟨inaccvalue, hinacc⟩ : ∃ inaccvalue, mergeinacc order none 0 = .ok inaccvalue := ⟨_, rfl⟩
  rw [utc_mkgmtime, bind_of_ok _ hinacc]
  by_cases hyear' : MergedYear e.year
  · obtain ⟨secs, hmerge⟩ := hmerged hyear'
    obtain ⟨utc', tdf', hmake, hreads, -⟩ := utc_mkcomptime_reads order
      (.ofInt 64 (lastSecond e + leapError e.year * K_100NS_PER_DAY)) inaccvalue 0
    rw [if_pos hyear', bind_of_ok _ hmerge]
    dsimp only
    rw [bind_of_ok _ hmake, bind_of_ok _ hreads]
  · rw [if_neg hyear', hfails hyear']
    rfl

theorem computeNextLS_spec (order : ByteOrder) (v : UTCValue) : ∃ d last, d.Valid ∧ v.toInt / K_100NS_PER_DAY = d.number ∧
    (last = true ↔ InServiceLastSecond v.toInt d) ∧ -40000 < d.year ∧ d.year < 40000 ∧
    computeNextLS order v = if MergedYear (serviceNext d last).year then
      .ok (.ofInt 64 (lastSecond (serviceNext d last) + leapError (serviceNext d last).year * K_100NS_PER_DAY))
    else .error .invalid := by
  obtain ⟨timetm, tns, frac, htime, htm, hticks, -, -⟩ := splittime_spec v 0
  rw [localTime_zero] at hticks
  obtain ⟨hlow, hhigh⟩ := year_small htm hticks
  have hyear (t : tm) (hsmall : -40000 < t.date.year) (hsmall' : t.date.year < 40000) : (t.tm_year + 1900).toInt = t.date.year := by
    have hbase : (1900 : BitVec 32).toInt = 1900 := by decide
    have hdate : t.date.year = t.tm_year.toInt + 1900 := rfl
    rw [toInt_add_small, hbase, hdate] <;> omega
  obtain ⟨tmtime, htmtime⟩ : ∃ tmtime : tm, tmtime = { timetm with tm_isdst := 0 } := ⟨_, rfl⟩
  have htm' : IsCivil tmtime tns frac := htmtime ▸ htm.with_isdst 0
  have hsame : tmtime.date = timetm.date := by
    rw [htmtime]
    rfl
  have hticks' : tmtime.civilTicks frac = v.toInt := by
    rw [← hticks, htmtime]
    rfl
  have hday := htm'.ticks_parts.1
  rw [hticks'] at hday
  rw [← hsame] at hlow hhigh
  obtain ⟨lastDay, hlastDay, hlast⟩ := lastDayOfMonth_spec htm'.valid.month_lt (hyear tmtime hlow hhigh)
  have hin := inLastSecond_iff htm' hlast
  rw [hticks'] at hin
  refine ⟨tmtime.date, inLastSecond tmtime lastDay, htm'.valid, hday, hin, hlow, hhigh, ?_⟩
  obtain ⟨utc, tdf, hmake, hreads⟩ := mkcomptime_none_reads order v
  obtain ⟨inacctm, ins, hsplit, -⟩ := inacctm_spec order (show givenInacc (some K_INFINITE_INACC) = K_INFINITE_INACC by decide)
  have hgmtime : utc_gmtime order utc = .ok ((tmtime, tns), inacctm, ins) := by
    rw [utc_gmtime, bind_of_ok _ hreads]
    dsimp only
    rw [bind_of_ok _ hsplit, bind_of_ok _ htime, htmtime]
  rw [computeNextLS, bind_of_ok _ hmake, bind_of_ok _ hgmtime]
  dsimp only
  rw [bind_of_ok _ hlastDay]
  cases inLastSecond tmtime lastDay with
  | false =>
    have hsame' : serviceNext tmtime.date false = serviceMonthEnd tmtime.date.year tmtime.date.month := rfl
    simp only [Bool.false_eq_true, if_false]
    rw [bind_of_ok (a := lastDay) _ rfl, hsame']
    have hvalid : (serviceMonthEnd tmtime.date.year tmtime.date.month).Valid := (serviceMonthEnd_valid htm'.valid.month_lt).1
    exact last_second_time order hvalid rfl rfl hlast
  | true =>
    obtain ⟨hmonth, hyears, hnext⟩ := followingMonth_spec htm'.valid.month_lt hlow hhigh
    obtain ⟨lastDay', hlastDay', hlast'⟩ := lastDayOfMonth_spec hmonth hyears
    simp only [if_true]
    rw [bind_of_ok _ hlastDay', hnext]
    generalize followingMonth tmtime = tmtime' at *
    have hvalid : (serviceMonthEnd tmtime'.date.year tmtime'.date.month).Valid := (serviceMonthEnd_valid hmonth).1
    exact last_second_time order hvalid rfl rfl hlast'

/-! When the computed last second is the next one -/

theorem merged_inRange (he : e.Valid) (hyear : MergedYear e.year) :
    InRange (lastSecond e + leapError e.year * K_100NS_PER_DAY) := by
  obtain ⟨hpos, hneg⟩ := he.year_bounds
  obtain ⟨herror, herror'⟩ := leapError_bounds e.year
  obtain ⟨hlow, hhigh⟩ := hyear
  have hgregorian : gregorianStart 1582 = 577448 := by decide
  have hjulian : julianStart 1582 = 577460 := by decide
  have hday : K_100NS_PER_DAY = 864000000000 := by decide
  have hsec : (SECS_PER_DAY - 1) * K_100NS_PER_SEC = 863990000000 := by decide
  have hbounds : -10675100 ≤ e.number ∧ e.number ≤ 10675100 := by
    rw [hgregorian] at hpos
    rw [hjulian] at hneg
    simp only [gregorianStart] at hpos
    simp only [julianStart] at hneg
    omega
  rw [InRange, lastSecond, hday, hsec]
  omega

theorem julian_number (hyear : e.year ≤ 1582) (hmonth : e.month < 9) :
    e.number = julianStart e.year + e.yearDay - (julianStart 1582 + 277) := by
  rw [Date.number, if_neg]
  rw [Date.Gregorian]
  omega

theorem century_leapYear (hcentury : CenturyFebruary d) : leapYear d.year = true := by
  obtain ⟨-, hyear, hhundred, -⟩ := hcentury
  rw [leapYear, if_neg (by omega), decide_eq_true_eq]
  omega

theorem century_leapError (hcentury : CenturyFebruary d) : leapError d.year ≤ 0 := by
  obtain ⟨-, hyear, hhundred, -⟩ := hcentury
  rw [leapError]
  split_ifs <;> omega

theorem century_numbers (hcentury : CenturyFebruary d) :
    (Date.monthEnd d.year 1).number = (serviceMonthEnd d.year 1).number + 1 ∧
      (serviceMonthEnd d.year 2).number = (Date.monthEnd d.year 1).number + 31 := by
  have hleap := century_leapYear hcentury
  have hfebruary : CenturyFebruary (Date.monthEnd d.year 1) := ⟨rfl, hcentury.2⟩
  obtain ⟨hday, hday'⟩ := serviceMonthEnd_century hfebruary
  have hyear : d.year ≤ 1582 := hcentury.2.1
  have hend : (Date.monthEnd d.year 1).yearDay = 59 := by
    rw [Date.yearDay, hday']
    change monthStart (leapYear d.year) 1 + 29 - 1 = 59
    rw [hleap]
    decide
  have hservice : (serviceMonthEnd d.year 1).yearDay = 58 := by
    rw [Date.yearDay, hday]
    change monthStart (leapYear d.year) 1 + 28 - 1 = 58
    rw [hleap]
    decide
  have hmarch : (serviceMonthEnd d.year 2).yearDay = 90 := by
    rw [Date.yearDay, serviceMonthEnd, monthLength_leap (by decide) _ true]
    change monthStart (leapYear d.year) 2 + monthLength true 2 - 1 = 90
    rw [hleap]
    decide
  rw [julian_number (e := Date.monthEnd d.year 1) hyear (by decide : 1 < 9),
    julian_number (e := serviceMonthEnd d.year 1) hyear (by decide : 1 < 9),
    julian_number (e := serviceMonthEnd d.year 2) hyear (by decide : 2 < 9), hend, hservice, hmarch]
  change julianStart d.year + 59 - _ = julianStart d.year + 58 - _ + 1 ∧
    julianStart d.year + 90 - _ = julianStart d.year + 59 - _ + 31
  omega

theorem serviceNext_eq (hd : d.Valid) (hday : x / K_100NS_PER_DAY = d.number) (hkept : ¬CenturyFebruary d) {last : Bool}
    (hlast : last = true ↔ InServiceLastSecond x d) :
    serviceNext d last = serviceMonthEnd (nextMonthEnd x d).year (nextMonthEnd x d).month := by
  have hservice : serviceMonthEnd d.year d.month = Date.monthEnd d.year d.month := serviceMonthEnd_eq hkept
  have hvalid : (Date.monthEnd d.year d.month).Valid := Date.monthEnd_valid hd.month_lt
  have hK : K_100NS_PER_DAY = 864000000000 := by decide
  have hsec : (SECS_PER_DAY - 1) * K_100NS_PER_SEC = 863990000000 := by decide
  have hlast' : last = true ↔ lastSecond (Date.monthEnd d.year d.month) ≤ x := by
    rw [hlast, InServiceLastSecond, hservice, lastSecond, hsec]
    constructor
    · rintro ⟨hend, hlate⟩
      have hdate : Date.monthEnd d.year d.month = d := (Date.mk.injEq ..).mpr ⟨rfl, rfl, hend.symm⟩
      rw [hdate, ← hday]
      rw [hK] at hlate ⊢
      omega
    · intro hlate
      have hle := hd.number_le_of_day hvalid rfl rfl hd.day_le
      rw [hK] at hday hlate ⊢
      have hnumber : d.number = (Date.monthEnd d.year d.month).number := by omega
      have hdate := hd.number_injective hvalid hnumber
      refine ⟨congrArg Date.day hdate, ?_⟩
      omega
  rw [serviceNext, nextMonthEnd]
  by_cases hbefore : x < lastSecond (Date.monthEnd d.year d.month)
  · rw [if_pos hbefore, if_neg (mt hlast'.mp (not_le.mpr hbefore))]
    rfl
  · rw [if_neg hbefore, if_pos (hlast'.mpr (not_lt.mp hbefore))]
    by_cases hdecember : d.month = 11
    · rw [if_pos hdecember, if_pos hdecember]
      rfl
    · rw [if_neg hdecember, if_neg hdecember]
      rfl

/-- The dates of a time and of its next last second are ones that the computation gets right. -/
structure LeapKept (x : ℤ) (d : Date) : Prop where
  month : ¬CenturyFebruary d
  merged : MergedYear (nextMonthEnd x d).year
  leapDays : LeapDaysKept (nextMonthEnd x d).year
  nextMonth : ¬CenturyFebruary (nextMonthEnd x d)

theorem nextMonthEnd_monthEnd (x : ℤ) (d : Date) :
    Date.monthEnd (nextMonthEnd x d).year (nextMonthEnd x d).month = nextMonthEnd x d := by
  rw [nextMonthEnd]
  split_ifs <;> rfl

theorem lastSecond_add_eq_iff {e e' : Date} {error : ℤ} :
    lastSecond e + error * K_100NS_PER_DAY = lastSecond e' ↔ e.number + error = e'.number := by
  have hK : K_100NS_PER_DAY = 864000000000 := by decide
  rw [lastSecond, lastSecond, hK]
  omega

theorem serviceNext_valid (hd : d.Valid) (last : Bool) : (serviceNext d last).Valid := by
  have hmonth := hd.month_lt
  rw [serviceNext]
  split_ifs with hlast hdecember
  · exact (serviceMonthEnd_valid (by decide)).1
  · exact (serviceMonthEnd_valid (by omega)).1
  · exact (serviceMonthEnd_valid hmonth).1

theorem century_wrong (hd : d.Valid) (hday : x / K_100NS_PER_DAY = d.number) (hcentury : CenturyFebruary d) {last : Bool}
    (hlast : last = true ↔ InServiceLastSecond x d) :
    (serviceNext d last).number + leapError (serviceNext d last).year ≠ (nextMonthEnd x d).number := by
  obtain ⟨hend, hmarch⟩ := century_numbers hcentury
  have hmonth : d.month = 1 := hcentury.1
  have herror := century_leapError hcentury
  have herror' := (leapError_bounds d.year).1
  cases last with
  | false =>
    have hnext : serviceNext d false = serviceMonthEnd d.year 1 := by
      rw [serviceNext, hmonth]
      rfl
    have hyear : (serviceMonthEnd d.year 1).year = d.year := rfl
    have hle : lastSecond (Date.monthEnd d.year 1) ≤ lastSecond (nextMonthEnd x d) := by
      obtain ⟨year, month, hmonth', heq, hsame, hfollowing⟩ := nextMonthEnd_eq (x := x) hd
      have hindex : d.monthIndex ≤ year * 12 + month := by
        by_cases hbefore : x < lastSecond (Date.monthEnd d.year d.month)
        · exact le_of_eq (hsame hbefore).symm
        · have hindex := hfollowing (not_lt.mp hbefore)
          omega
      rw [Date.monthIndex, hmonth] at hindex
      rw [heq]
      exact monthEnd_le (by decide) hmonth' hindex
    have hK : K_100NS_PER_DAY = 864000000000 := by decide
    rw [lastSecond, lastSecond, hK] at hle
    rw [hnext, hyear]
    omega
  | true =>
    have hin := hlast.mp rfl
    have hdate : d = serviceMonthEnd d.year 1 := by
      refine (Date.mk.injEq ..).mpr ⟨rfl, hmonth, ?_⟩
      rw [hin.1, hmonth]
      rfl
    have hbefore : x < lastSecond (Date.monthEnd d.year d.month) := by
      have hK : K_100NS_PER_DAY = 864000000000 := by decide
      have hsec : (SECS_PER_DAY - 1) * K_100NS_PER_SEC = 863990000000 := by decide
      have hnumber := congrArg Date.number hdate
      rw [hmonth, lastSecond, hK, hsec]
      rw [hK] at hday
      omega
    have hnext : serviceNext d true = serviceMonthEnd d.year 2 := by
      rw [serviceNext, hmonth]
      rfl
    have hyear : (serviceMonthEnd d.year 2).year = d.year := rfl
    rw [nextMonthEnd, if_pos hbefore, hnext, hmonth, hyear]
    omega

theorem computed_right_iff (order : ByteOrder) (v : UTCValue) (hd : d.Valid) (hday : v.toInt / K_100NS_PER_DAY = d.number) :
    (∃ r, computeNextLS order v = .ok r ∧ r.toInt = lastSecond (nextMonthEnd v.toInt d)) ↔ LeapKept v.toInt d := by
  obtain ⟨d', last, hd', hday', hlast, -, -, hcompute⟩ := computeNextLS_spec order v
  obtain rfl := hd'.number_injective hd (hday'.symm.trans hday)
  have hvalid := serviceNext_valid hd last
  have hright : (∃ r, computeNextLS order v = .ok r ∧ r.toInt = lastSecond (nextMonthEnd v.toInt d')) ↔
      MergedYear (serviceNext d' last).year ∧
        (serviceNext d' last).number + leapError (serviceNext d' last).year = (nextMonthEnd v.toInt d').number := by
    rw [hcompute]
    by_cases hyear : MergedYear (serviceNext d' last).year
    · rw [if_pos hyear, ← lastSecond_add_eq_iff]
      simp only [Except.ok.injEq, exists_eq_left', hyear, true_and]
      rw [toInt_ofInt_of_inRange (merged_inRange hvalid hyear)]
    · simp [hyear]
  rw [hright]
  by_cases hcentury : CenturyFebruary d'
  · refine iff_of_false (fun h => ?_) fun h => h.month hcentury
    exact century_wrong hd hday hcentury hlast h.2
  · have hnext := serviceNext_eq hd hday hcentury hlast
    have hend := nextMonthEnd_monthEnd v.toInt d'
    have hkept : LeapKept v.toInt d' ↔ MergedYear (nextMonthEnd v.toInt d').year ∧ LeapDaysKept (nextMonthEnd v.toInt d').year ∧
        ¬CenturyFebruary (nextMonthEnd v.toInt d') :=
      ⟨fun h => ⟨h.merged, h.leapDays, h.nextMonth⟩, fun h => ⟨hcentury, h.1, h.2.1, h.2.2⟩⟩
    rw [hnext, hkept]
    clear hkept hright hcompute hvalid hnext
    generalize nextMonthEnd v.toInt d' = target at *
    have hyear : (serviceMonthEnd target.year target.month).year = target.year := rfl
    rw [hyear]
    by_cases hcentury' : CenturyFebruary target
    · -- the day before, and no error of `mergetime` makes up for it
      have herror := century_leapError hcentury'
      have hshort := (century_numbers hcentury').1
      have hmonth : target.month = 1 := hcentury'.1
      rw [← hmonth, hend] at hshort
      refine iff_of_false (fun h => ?_) fun h => h.2.2 hcentury'
      omega
    · have hsame : serviceMonthEnd target.year target.month = target := by
        rw [serviceMonthEnd_eq (by rwa [hend]), hend]
      rw [hsame, ← leapError_eq_zero_iff]
      constructor
      · rintro ⟨hmerged, hnumber⟩
        exact ⟨hmerged, by omega, hcentury'⟩
      · rintro ⟨hmerged, herror, -⟩
        exact ⟨hmerged, by omega⟩

/-! Calls one after another -/

/-- The sum is a time, and its date and that of the next last second are kept. -/
def NextLSKept (x : ℤ) : Prop := x < 2 ^ 63 ∧ ∀ d : Date, d.Valid → x / K_100NS_PER_DAY = d.number → LeapKept x d

/-- A call returns the earliest last second of a month that is later than `T + I`. -/
def NextLSRight (order : ByteOrder) (s : LeapTimes) (T : UTCValue) (I : ExtInacc) : Prop :=
  ∃ result s', CalcNextLS order s T I = .ok (result, s') ∧ IsLeast (lastSecondsAfter (T.toInt + I.toInt)) result.toInt

/-- In the times from the last computation to the stored leap second, that one is the next. -/
def WindowRight (s : LeapTimes) : Prop :=
  s.TlastLS.toInt < s.nextLS.toInt → 0 ≤ s.TlastLS.toInt ∧ IsLeast (lastSecondsAfter s.TlastLS.toInt) s.nextLS.toInt ∧
    ∃ e : Date, e.Valid ∧ e.year ≤ 30809 ∧ s.nextLS.toInt = lastSecond e

theorem toInt_infinity : (UTCinit 0xffffffff 0x7fffffff).toInt = 2 ^ 63 - 1 := by decide

theorem toInt_finite (hfinite : IsInfiniteInacc I = false) : 0 ≤ I.toInt ∧ I.toInt < 2 ^ 48 := by
  have hlt : I.toNat < 2 ^ 48 := by
    rw [IsInfiniteInacc, BitVec.ule, decide_eq_false_iff_not] at hfinite
    have hinfinite : K_INFINITE_INACC.toNat = 2 ^ 48 - 1 := by decide
    omega
  rw [BitVec.toInt_eq_toNat_of_lt (by omega)]
  omega

theorem toInt_sum {T : UTCValue} (hfinite : IsInfiniteInacc I = false) :
    (T.toInt + I.toInt < 2 ^ 63 → (UTCadd T I).toInt = T.toInt + I.toInt) ∧
      (2 ^ 63 ≤ T.toInt + I.toInt → (UTCadd T I).toInt < 0) := by
  obtain ⟨hI, hI'⟩ := toInt_finite hfinite
  have hT := toInt_inRange T
  rw [InRange] at hT
  rw [UTCadd, BitVec.toInt_add, Int.bmod_def]
  constructor <;> intro h <;> split_ifs <;> omega

theorem exists_date (v : UTCValue) : ∃ d : Date, d.Valid ∧ v.toInt / K_100NS_PER_DAY = d.number := by
  obtain ⟨d, -, hd, hday, -⟩ := computeNextLS_spec .little v
  exact ⟨d, hd, hday⟩

theorem nextLSKept_iff (hd : d.Valid) (hday : v.toInt / K_100NS_PER_DAY = d.number) :
    NextLSKept v.toInt ↔ LeapKept v.toInt d := by
  constructor
  · intro hkept
    exact hkept.2 d hd hday
  · intro hkept
    refine ⟨(toInt_inRange v).2, ?_⟩
    intro d' hd' hday'
    rwa [hd'.number_injective hd (hday'.symm.trans hday)]

theorem year_of_nonneg (hd : d.Valid) (hday : x / K_100NS_PER_DAY = d.number) (hpos : 0 ≤ x) : 1582 ≤ d.year := by
  have hnumber : 0 ≤ d.number := by
    rw [← hday]
    exact Int.ediv_nonneg hpos (by decide)
  exact (hd.year_bounds.1 hnumber).1

theorem not_century (hyear : 1582 ≤ d.year) : ¬CenturyFebruary d := by
  rintro ⟨-, hle, hhundred, -⟩
  omega

theorem leapKept_of_nonneg (hd : d.Valid) (hday : x / K_100NS_PER_DAY = d.number) (hpos : 0 ≤ x) :
    LeapKept x d ↔ (nextMonthEnd x d).year ≤ 30809 := by
  have hyear := year_of_nonneg hd hday hpos
  obtain ⟨year, month, hmonth, hnext, hsame, hfollowing⟩ := nextMonthEnd_eq (x := x) hd
  have hyear' : 1582 ≤ (nextMonthEnd x d).year := by
    rw [hnext]
    change 1582 ≤ year
    have hd' := hd.month_lt
    rw [Date.monthIndex] at hsame hfollowing
    by_cases hbefore : x < lastSecond (Date.monthEnd d.year d.month)
    · have hindex := hsame hbefore
      omega
    · have hindex := hfollowing (not_lt.mp hbefore)
      omega
  constructor
  · intro hkept
    exact hkept.merged.2
  · intro hlate
    refine ⟨not_century hyear, ⟨by omega, hlate⟩, ?_, not_century hyear'⟩
    rw [LeapDaysKept]
    omega

theorem computed_iff (order : ByteOrder) (v : UTCValue) :
    (∃ r, computeNextLS order v = .ok r ∧ IsLeast (lastSecondsAfter v.toInt) r.toInt) ↔ NextLSKept v.toInt := by
  obtain ⟨d, hd, hday⟩ := exists_date v
  rw [nextLSKept_iff hd hday, ← computed_right_iff order v hd hday]
  have hleast := nextMonthEnd_isLeast hd hday
  constructor
  · rintro ⟨r, hr, hright⟩
    exact ⟨r, hr, hright.unique hleast⟩
  · rintro ⟨r, hr, hright⟩
    exact ⟨r, hr, hright ▸ hleast⟩

theorem WindowRight.cached (hs : WindowRight s) (hlow : s.TlastLS.toInt ≤ v.toInt)
    (hhigh : v.toInt < s.nextLS.toInt) : IsLeast (lastSecondsAfter v.toInt) s.nextLS.toInt ∧ NextLSKept v.toInt := by
  obtain ⟨hpos, ⟨⟨hlast, -⟩, hfirst⟩, e, he, hyear, hnext⟩ := hs (hlow.trans_lt hhigh)
  have hright : IsLeast (lastSecondsAfter v.toInt) s.nextLS.toInt := by
    refine ⟨⟨hlast, hhigh⟩, ?_⟩
    rintro w ⟨hw, hlater⟩
    exact hfirst ⟨hw, hlow.trans_lt hlater⟩
  refine ⟨hright, ?_⟩
  obtain ⟨d, hd, hday⟩ := exists_date v
  rw [nextLSKept_iff hd hday, leapKept_of_nonneg hd hday (hpos.trans hlow)]
  obtain ⟨year, month, hmonth, heq, -, -⟩ := nextMonthEnd_eq (x := v.toInt) hd
  have hsame : lastSecond (nextMonthEnd v.toInt d) = lastSecond e := by
    rw [← hnext]
    exact (nextMonthEnd_isLeast hd hday).unique hright
  rw [heq] at hsame ⊢
  rwa [lastSecond_injective (Date.monthEnd_valid hmonth) he hsame]

/-- The time that is kept, which is infinite after a negative sum. -/
def keptTime (sum : UTCValue) : UTCValue := if IsUTCneg sum then UTCinit 0xffffffff 0x7fffffff else sum

theorem keptTime_nonneg {sum : UTCValue} (hpos : 0 ≤ sum.toInt) : keptTime sum = sum :=
  if_neg fun hneg => absurd (IsUTCneg_iff.mp hneg) (not_lt.mpr hpos)

theorem keptTime_negative {sum : UTCValue} (hneg : sum.toInt < 0) : (keptTime sum).toInt = 2 ^ 63 - 1 := by
  rw [keptTime, if_pos (IsUTCneg_iff.mpr hneg), toInt_infinity]

theorem CalcNextLS_cases (order : ByteOrder) (s : LeapTimes) (T : UTCValue) (hfinite : IsInfiniteInacc I = false) :
    (s.TlastLS.toInt ≤ (keptTime (UTCadd T I)).toInt ∧ (keptTime (UTCadd T I)).toInt < s.nextLS.toInt ∧
      CalcNextLS order s T I = .ok (s.nextLS, s)) ∨
    (¬(s.TlastLS.toInt ≤ (keptTime (UTCadd T I)).toInt ∧ (keptTime (UTCadd T I)).toInt < s.nextLS.toInt) ∧
      CalcNextLS order s T I =
        (computeNextLS order (UTCadd T I)).map fun nextLS => (nextLS, { s with TlastLS := keptTime (UTCadd T I) })) := by
  have hsum : UTCadd I T = UTCadd T I := BitVec.add_comm I T
  have hcached : (!IsUTClt (keptTime (UTCadd T I)) s.TlastLS && IsUTClt (keptTime (UTCadd T I)) s.nextLS) = true ↔
      s.TlastLS.toInt ≤ (keptTime (UTCadd T I)).toInt ∧ (keptTime (UTCadd T I)).toInt < s.nextLS.toInt := by
    rw [Bool.and_eq_true, Bool.not_eq_true', ← Bool.not_eq_true, IsUTClt_iff, IsUTClt_iff, not_lt]
  rw [CalcNextLS, hfinite, Bool.not_false, if_pos rfl, hsum]
  dsimp only
  rw [← keptTime]
  by_cases hwindow : s.TlastLS.toInt ≤ (keptTime (UTCadd T I)).toInt ∧ (keptTime (UTCadd T I)).toInt < s.nextLS.toInt
  · left
    exact ⟨hwindow.1, hwindow.2, if_pos (hcached.mpr hwindow)⟩
  · right
    refine ⟨hwindow, ?_⟩
    rw [if_neg (mt hcached.mp hwindow)]
    cases computeNextLS order (UTCadd T I) <;> rfl

theorem nextLSRight_iff (order : ByteOrder) (hs : WindowRight s) (T : UTCValue)
    (hfinite : IsInfiniteInacc I = false) : NextLSRight order s T I ↔ NextLSKept (T.toInt + I.toInt) := by
  obtain ⟨hexact, hoverflow⟩ := toInt_sum (T := T) hfinite
  have hnext := BitVec.toInt_lt (x := s.nextLS)
  by_cases hfits : T.toInt + I.toInt < 2 ^ 63
  · rw [NextLSRight, ← hexact hfits]
    obtain ⟨hlow, hhigh, hcall⟩ | ⟨-, hcall⟩ := CalcNextLS_cases order s T hfinite
    · -- the window has no negative times
      have hpos : 0 ≤ (UTCadd T I).toInt := by
        by_contra hneg
        rw [keptTime_negative (not_le.mp hneg)] at hhigh
        omega
      rw [keptTime_nonneg hpos] at hlow hhigh
      obtain ⟨hright, hkept⟩ := hs.cached hlow hhigh
      exact iff_of_true ⟨_, _, hcall, hright⟩ hkept
    · rw [hcall, ← computed_iff order]
      constructor
      · rintro ⟨result, s', hresult, hright⟩
        cases hcompute : computeNextLS order (UTCadd T I) with
        | error e => simp [hcompute, Except.map] at hresult
        | ok r =>
          simp only [hcompute, Except.map, Except.ok.injEq, Prod.mk.injEq] at hresult
          exact ⟨r, rfl, hresult.1 ▸ hright⟩
      · rintro ⟨r, hcompute, hright⟩
        exact ⟨r, _, by rw [hcompute]; rfl, hright⟩
  · -- no time is later than the sum
    refine iff_of_false ?_ fun hkept => hfits hkept.1
    rintro ⟨result, s', -, ⟨⟨-, hlater⟩, -⟩⟩
    have hlt := BitVec.toInt_lt (x := result)
    omega

theorem computed_of_nonneg {order : ByteOrder} {v r : UTCValue} (hpos : 0 ≤ v.toInt) (hcompute : computeNextLS order v = .ok r) :
    IsLeast (lastSecondsAfter v.toInt) r.toInt ∧ ∃ e : Date, e.Valid ∧ e.year ≤ 30809 ∧ r.toInt = lastSecond e := by
  obtain ⟨d, last, hd, hday, hlast, -, -, hspec⟩ := computeNextLS_spec order v
  have hyear := year_of_nonneg hd hday hpos
  have hmerged : MergedYear (serviceNext d last).year := by
    by_contra hnot
    rw [hspec, if_neg hnot] at hcompute
    simp at hcompute
  rw [serviceNext_eq hd hday (not_century hyear) hlast] at hmerged
  have hlate : (nextMonthEnd v.toInt d).year ≤ 30809 := hmerged.2
  have hkept := (leapKept_of_nonneg hd hday hpos).mpr hlate
  obtain ⟨r', hcompute', hright⟩ := (computed_right_iff order v hd hday).mpr hkept
  obtain rfl := Except.ok.inj (hcompute.symm.trans hcompute')
  obtain ⟨year, month, hmonth, hnext, -, -⟩ := nextMonthEnd_eq (x := v.toInt) hd
  refine ⟨hright ▸ nextMonthEnd_isLeast hd hday, nextMonthEnd v.toInt d, ?_, hlate, hright⟩
  rw [hnext]
  exact Date.monthEnd_valid hmonth

theorem WindowRight.step {order : ByteOrder} {s s' : LeapTimes} {call : UTCValue × ExtInacc} (hs : WindowRight s)
    (hstep : (leapSystem order).step s call = some s') : WindowRight s' := by
  obtain ⟨T, I⟩ := call
  simp only [leapSystem] at hstep
  cases hinfinite : IsInfiniteInacc I with
  | true =>
    have hcall : CalcNextLS order s T I = .ok (s.nextLS, s) := by simp [CalcNextLS, hinfinite]
    simp only [hcall, Option.some.injEq] at hstep
    rwa [← hstep]
  | false =>
    obtain ⟨hlow, hhigh, hcall⟩ | ⟨-, hcall⟩ := CalcNextLS_cases order s T hinfinite
    · simp only [hcall, Option.some.injEq] at hstep
      rwa [← hstep]
    · cases hcompute : computeNextLS order (UTCadd T I) with
      | error e => simp [hcall, hcompute, Except.map] at hstep
      | ok r =>
        simp only [hcall, hcompute, Except.map, Option.some.injEq] at hstep
        rw [← hstep]
        intro hwindow
        dsimp only at hwindow ⊢
        have hlt := BitVec.toInt_lt (x := r)
        by_cases hpos : 0 ≤ (UTCadd T I).toInt
        · rw [keptTime_nonneg hpos]
          obtain ⟨hright, hnext⟩ := computed_of_nonneg hpos hcompute
          exact ⟨hpos, hright, hnext⟩
        · rw [keptTime_negative (not_le.mp hpos)] at hwindow
          omega

theorem windowRight_of_reachable {order : ByteOrder} (hreach : (leapSystem order).Reachable s) :
    WindowRight s := by
  refine hreach.invariant (P := WindowRight) ?_ ?_
  · intro s hinit hwindow
    have hlast : s.TlastLS = UTCinit 0xffffffff 0x7fffffff := hinit
    have hlt := BitVec.toInt_lt (x := s.nextLS)
    rw [hlast, toInt_infinity] at hwindow
    omega
  · intro s call s' hs hstep
    exact hs.step hstep

/-- What `CalcNextLS` promises of a call: the earliest last second of a month that is later than `T + I`, or what is stored
when the inaccuracy is infinite. -/
def CallRight (order : ByteOrder) (s : LeapTimes) (T : UTCValue) (I : ExtInacc) : Prop :=
  if IsInfiniteInacc I then CalcNextLS order s T I = .ok (s.nextLS, s) else NextLSRight order s T I

/-- Which calls keep the promise, after every sequence of calls. -/
theorem next_leap_second_iff {order : ByteOrder} {s : LeapTimes} (hreach : (leapSystem order).Reachable s) (T : UTCValue)
    (I : ExtInacc) : CallRight order s T I ↔ (IsInfiniteInacc I = false → NextLSKept (T.toInt + I.toInt)) := by
  rw [CallRight]
  cases hinfinite : IsInfiniteInacc I with
  | true =>
    simp only [if_true]
    exact iff_of_true (by simp [CalcNextLS, hinfinite]) (by simp)
  | false =>
    simp only [Bool.false_eq_true, if_false, forall_const]
    exact nextLSRight_iff order (windowRight_of_reachable hreach) T hinfinite

theorem next_leap_second_at_start :
    CallRight .little ⟨UTCinit 0xffffffff 0x7fffffff, 0⟩ 0 0 ↔
      (IsInfiniteInacc 0 = false → NextLSKept ((0 : UTCValue).toInt + (0 : UTCValue).toInt)) :=
  next_leap_second_iff (show (leapSystem .little).Reachable ⟨UTCinit 0xffffffff 0x7fffffff, 0⟩ from .init rfl) 0 0

/-- 10 February 1500: the service takes the 28th for the last day of the month. -/
theorem february_1500_has_28_days : ¬∀ s, (leapSystem .little).Reachable s → ∀ T I, CallRight .little s T I := by
  intro hright
  have hreach : (leapSystem .little).Reachable ⟨UTCinit 0xffffffff 0x7fffffff, 0⟩ := .init rfl
  have hcall := hright _ hreach (.ofInt 64 (-30188 * 864000000000)) 0
  rw [CallRight, if_neg (by decide), nextLSRight_iff .little (windowRight_of_reachable hreach) _ (by decide)] at hcall
  have hvalid : (Date.mk 1500 1 10).Valid := ⟨by decide, by decide, by decide, by decide⟩
  have hkept := hcall.2 _ hvalid (by decide)
  exact hkept.month (by decide)

end dce.dts
