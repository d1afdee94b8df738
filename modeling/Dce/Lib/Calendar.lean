import Mathlib.Algebra.Order.Ring.Int

namespace lib

/-! Years -/

theorem period_unique {start : ℤ → ℤ} (hmono : ∀ {y z : ℤ}, y ≤ z → start y ≤ start z) {x y z : ℤ} (hy : start y ≤ x) (hy' : x < start (y + 1))
    (hz : start z ≤ x) (hz' : x < start (z + 1)) : y = z := by
  have hle {y z : ℤ} (hy : start y ≤ x) (hz' : x < start (z + 1)) : y ≤ z := by
    by_contra hlt
    exact absurd (hmono (show z + 1 ≤ y by omega)) (by omega)
  exact le_antisymm (hle hy hz') (hle hz hy')

/-- The leap years of a calendar that goes over from the Julian to the Gregorian rule after 1582. -/
def leapYear (year : ℤ) : Bool :=
  if 1582 < year then decide ((year % 4 = 0 ∧ year % 100 ≠ 0) ∨ year % 400 = 0) else decide (year % 4 = 0)

/-- The days before a year of the Julian calendar, from the year 1 on. -/
def julianStart (year : ℤ) : ℤ := 365 * (year - 1) + (year - 1) / 4

/-- The days before a year of the Gregorian calendar, from the year 1 on. -/
def gregorianStart (year : ℤ) : ℤ := 365 * (year - 1) + (year - 1) / 4 - (year - 1) / 100 + (year - 1) / 400

def yearLength (leap : Bool) : ℤ := if leap then 366 else 365

theorem yearLength_pos (leap : Bool) : 0 < yearLength leap := by cases leap <;> decide

theorem julianStart_succ (year : ℤ) : julianStart (year + 1) = julianStart year + yearLength (decide (year % 4 = 0)) := by
  rw [julianStart, julianStart, yearLength]
  by_cases hleap : year % 4 = 0
  · rw [if_pos (decide_eq_true hleap)]
    omega
  · rw [if_neg (by simpa using hleap)]
    omega

theorem gregorianStart_succ (year : ℤ) : gregorianStart (year + 1) =
    gregorianStart year + yearLength (decide ((year % 4 = 0 ∧ year % 100 ≠ 0) ∨ year % 400 = 0)) := by
  rw [gregorianStart, gregorianStart, yearLength]
  by_cases hleap : (year % 4 = 0 ∧ year % 100 ≠ 0) ∨ year % 400 = 0
  · rw [if_pos (decide_eq_true hleap)]
    omega
  · rw [if_neg (by simpa using hleap)]
    omega

theorem julianStart_mono {y z : ℤ} (hle : y ≤ z) : julianStart y ≤ julianStart z := by
  refine monotone_int_of_le_succ (fun year => ?_) hle
  have hpos := yearLength_pos (decide (year % 4 = 0))
  rw [julianStart_succ]
  omega

theorem gregorianStart_mono {y z : ℤ} (hle : y ≤ z) : gregorianStart y ≤ gregorianStart z := by
  refine monotone_int_of_le_succ (fun year => ?_) hle
  have hpos := yearLength_pos (decide ((year % 4 = 0 ∧ year % 100 ≠ 0) ∨ year % 400 = 0))
  rw [gregorianStart_succ]
  omega

theorem julianStart_leapYear {year : ℤ} (hyear : year ≤ 1582) :
    julianStart (year + 1) = julianStart year + yearLength (leapYear year) := by
  rw [julianStart_succ, leapYear, if_neg (by omega)]

theorem gregorianStart_leapYear {year : ℤ} (hyear : 1582 ≤ year) :
    gregorianStart (year + 1) = gregorianStart year + yearLength (leapYear year) := by
  rw [gregorianStart_succ, leapYear]
  by_cases hlast : year = 1582
  · subst hlast
    decide
  · rw [if_pos (by omega)]

/-! Months -/

def monthLengths (leap : Bool) : List ℤ := [31, if leap then 29 else 28, 31, 30, 31, 30, 31, 31, 30, 31, 30, 31]

def monthStart (leap : Bool) (month : ℕ) : ℤ := ((monthLengths leap).take month).sum

def monthLength (leap : Bool) (month : ℕ) : ℤ := (monthLengths leap).getD month 0

theorem monthStart_later (leap : Bool) : ∀ month < 12, ∀ later ≤ 12, month < later →
    monthStart leap month + monthLength leap month ≤ monthStart leap later := by
  cases leap <;> decide

theorem monthStart_year (leap : Bool) : monthStart leap 12 = yearLength leap := by cases leap <;> rfl

theorem monthStart_nonneg (leap : Bool) : ∀ month < 12, 0 ≤ monthStart leap month := by cases leap <;> decide

theorem month_unique {leap : Bool} {month month' : ℕ} {day day' : ℤ} (hmonth : month < 12) (hmonth' : month' < 12)
    (hday : 1 ≤ day ∧ day ≤ monthLength leap month) (hday' : 1 ≤ day' ∧ day' ≤ monthLength leap month')
    (hsame : monthStart leap month + day = monthStart leap month' + day') : month = month' ∧ day = day' := by
  obtain hlt | rfl | hlt := lt_trichotomy month month'
  · have hlater := monthStart_later leap month hmonth month' hmonth'.le hlt
    omega
  · exact ⟨rfl, by omega⟩
  · have hlater := monthStart_later leap month' hmonth' month hmonth.le hlt
    omega

/-! Dates -/

/-- A day of a month, where months are counted from 0. -/
structure Date where
  year : ℤ
  month : ℕ
  day : ℤ
  deriving DecidableEq, Repr

namespace Date

variable {d d' : Date}

def Gregorian (d : Date) : Prop := 1582 < d.year ∨ (d.year = 1582 ∧ (9 < d.month ∨ (d.month = 9 ∧ 14 < d.day)))

instance (d : Date) : Decidable d.Gregorian := inferInstanceAs (Decidable (_ ∨ _))

/-- The dates that there are: 4 October 1582 is followed by the 15th. -/
structure Valid (d : Date) : Prop where
  month_lt : d.month < 12
  day_pos : 1 ≤ d.day
  day_le : d.day ≤ monthLength (leapYear d.year) d.month
  kept : ¬(d.year = 1582 ∧ d.month = 9 ∧ 4 < d.day ∧ d.day < 15)

def yearDay (d : Date) : ℤ := monthStart (leapYear d.year) d.month + d.day - 1

def number (d : Date) : ℤ :=
  if d.Gregorian then gregorianStart d.year + d.yearDay - (gregorianStart 1582 + 287)
  else julianStart d.year + d.yearDay - (julianStart 1582 + 277)

/-- The day of the week, from Sunday on; 15 October 1582 was a Friday. -/
def weekday (d : Date) : ℤ := (d.number + 5) % 7

theorem Valid.yearDay_bounds (hd : d.Valid) : 0 ≤ d.yearDay ∧ d.yearDay < yearLength (leapYear d.year) := by
  have hnonneg := monthStart_nonneg (leapYear d.year) d.month hd.month_lt
  have hlast := monthStart_later (leapYear d.year) d.month hd.month_lt 12 le_rfl hd.month_lt
  have hpos := hd.day_pos
  have hle := hd.day_le
  rw [monthStart_year] at hlast
  rw [yearDay]
  omega

theorem Valid.ext_yearDay (hd : d.Valid) (hd' : d'.Valid) (hyear : d.year = d'.year) (hday : d.yearDay = d'.yearDay) :
    d = d' := by
  have hsame : monthStart (leapYear d'.year) d.month + d.day = monthStart (leapYear d'.year) d'.month + d'.day := by
    rw [yearDay, yearDay, hyear] at hday
    omega
  have hle := hd.day_le
  rw [hyear] at hle
  obtain ⟨hmonth, hdays⟩ := month_unique hd.month_lt hd'.month_lt ⟨hd.day_pos, hle⟩ ⟨hd'.day_pos, hd'.day_le⟩ hsame
  exact (mk.injEq ..).mpr ⟨hyear, hmonth, hdays⟩

theorem october (hmonth : d.month < 12) (hpos : 1 ≤ d.day) (hle : d.day ≤ monthLength (leapYear d.year) d.month)
    (hyear : d.year = 1582) :
    (d.month < 9 ∧ d.yearDay < 273) ∨ (d.month = 9 ∧ d.yearDay = 272 + d.day) ∨ (9 < d.month ∧ 304 ≤ d.yearDay) := by
  have hstart : monthStart (leapYear d.year) 9 = 273 := by rw [hyear]; decide
  have hlength : monthLength (leapYear d.year) 9 = 31 := by rw [hyear]; decide
  have hlate := monthStart_later (leapYear d.year) 9 (by decide) d.month hmonth.le
  have hearly := monthStart_later (leapYear d.year) d.month hmonth 9 (by decide)
  rw [hstart, hlength] at hlate
  rw [hstart] at hearly
  rw [yearDay]
  obtain hlt | heq | hlt := lt_trichotomy d.month 9
  · have hbefore := hearly hlt
    exact .inl ⟨hlt, by omega⟩
  · refine .inr (.inl ⟨heq, ?_⟩)
    rw [heq, hstart]
    omega
  · have hafter := hlate hlt
    exact .inr (.inr ⟨hlt, by omega⟩)

theorem Valid.october (hd : d.Valid) (hyear : d.year = 1582) :
    (d.Gregorian → 287 ≤ d.yearDay) ∧ (¬d.Gregorian → d.yearDay ≤ 276) := by
  have hkept := hd.kept
  have hcases := Date.october hd.month_lt hd.day_pos hd.day_le hyear
  rw [Gregorian]
  omega

theorem julian_valid (hmonth : d.month < 12) (hpos : 1 ≤ d.day) (hle : d.day ≤ monthLength (leapYear d.year) d.month)
    (hyear : d.year ≤ 1582) (hday : julianStart d.year + d.yearDay < julianStart 1582 + 277) :
    d.Valid ∧ d.number = julianStart d.year + d.yearDay - (julianStart 1582 + 277) := by
  obtain hlast | hlast := hyear.eq_or_lt
  · have hcases := Date.october hmonth hpos hle hlast
    rw [hlast] at hday
    have hnot : ¬d.Gregorian := by
      rw [Gregorian]
      omega
    exact ⟨⟨hmonth, hpos, hle, by omega⟩, by rw [number, if_neg hnot]⟩
  · have hnot : ¬d.Gregorian := by
      rw [Gregorian]
      omega
    exact ⟨⟨hmonth, hpos, hle, by omega⟩, by rw [number, if_neg hnot]⟩

theorem gregorian_valid (hmonth : d.month < 12) (hpos : 1 ≤ d.day) (hle : d.day ≤ monthLength (leapYear d.year) d.month)
    (hyear : 1582 ≤ d.year) (hday : gregorianStart 1582 + 287 ≤ gregorianStart d.year + d.yearDay) :
    d.Valid ∧ d.number = gregorianStart d.year + d.yearDay - (gregorianStart 1582 + 287) := by
  obtain hfirst | hfirst := hyear.eq_or_lt
  · have hcases := Date.october hmonth hpos hle hfirst.symm
    rw [← hfirst] at hday
    have hg : d.Gregorian := by
      rw [Gregorian]
      omega
    exact ⟨⟨hmonth, hpos, hle, by omega⟩, by rw [number, if_pos hg]⟩
  · have hg : d.Gregorian := .inl hfirst
    exact ⟨⟨hmonth, hpos, hle, by omega⟩, by rw [number, if_pos hg]⟩

theorem Valid.gregorian_iff (hd : d.Valid) : d.Gregorian ↔ 0 ≤ d.number := by
  obtain ⟨hlow, hhigh⟩ := hd.yearDay_bounds
  have hoctober := hd.october
  have hyears : d.Gregorian → 1582 ≤ d.year := by
    rw [Gregorian]
    omega
  have hyears' : ¬d.Gregorian → d.year ≤ 1582 := by
    rw [Gregorian]
    omega
  rw [number]
  by_cases hg : d.Gregorian
  · rw [if_pos hg]
    refine iff_of_true hg ?_
    obtain hlast | hlast := (hyears hg).eq_or_lt
    · have hday := (hoctober hlast.symm).1 hg
      rw [← hlast]
      omega
    · have hmono := gregorianStart_mono (show 1582 + 1 ≤ d.year by omega)
      have hnext : gregorianStart (1582 + 1) = gregorianStart 1582 + 365 := by decide
      omega
  · rw [if_neg hg]
    refine iff_of_false hg ?_
    obtain hlast | hlast := (hyears' hg).eq_or_lt
    · have hday := (hoctober hlast).2 hg
      rw [hlast]
      omega
    · have hmono := julianStart_mono (show d.year + 1 ≤ 1582 by omega)
      rw [julianStart_leapYear hlast.le] at hmono
      omega

theorem Valid.year_bounds (hd : d.Valid) :
    (0 ≤ d.number → 1582 ≤ d.year ∧ gregorianStart d.year ≤ d.number + (gregorianStart 1582 + 287) ∧
      d.number + (gregorianStart 1582 + 287) < gregorianStart (d.year + 1)) ∧
    (d.number < 0 → d.year ≤ 1582 ∧ julianStart d.year ≤ d.number + (julianStart 1582 + 277) ∧
      d.number + (julianStart 1582 + 277) < julianStart (d.year + 1)) := by
  obtain ⟨hlow, hhigh⟩ := hd.yearDay_bounds
  have hiff := hd.gregorian_iff
  constructor
  · intro hpos
    have hg := hiff.mpr hpos
    have hyear : 1582 ≤ d.year := by
      rw [Gregorian] at hg
      omega
    rw [number, if_pos hg, gregorianStart_leapYear hyear]
    exact ⟨hyear, by omega, by omega⟩
  · intro hneg
    have hg := mt hiff.mp (not_le.mpr hneg)
    have hyear : d.year ≤ 1582 := by
      rw [Gregorian] at hg
      omega
    rw [number, if_neg hg, julianStart_leapYear hyear]
    exact ⟨hyear, by omega, by omega⟩

theorem Valid.number_injective (hd : d.Valid) (hd' : d'.Valid) (hnumber : d.number = d'.number) : d = d' := by
  obtain ⟨hpos, hneg⟩ := hd.year_bounds
  obtain ⟨hpos', hneg'⟩ := hd'.year_bounds
  have hiff := hd.gregorian_iff
  have hiff' := hd'.gregorian_iff
  rw [← hnumber] at hpos' hneg' hiff'
  have hnumber' := hnumber
  by_cases hsign : 0 ≤ d.number
  · obtain ⟨-, hlow, hhigh⟩ := hpos hsign
    obtain ⟨-, hlow', hhigh'⟩ := hpos' hsign
    have hyear := period_unique gregorianStart_mono hlow hhigh hlow' hhigh'
    rw [number, number, if_pos (hiff.mpr hsign), if_pos (hiff'.mpr hsign), hyear] at hnumber'
    exact hd.ext_yearDay hd' hyear (by omega)
  · obtain ⟨-, hlow, hhigh⟩ := hneg (not_le.mp hsign)
    obtain ⟨-, hlow', hhigh'⟩ := hneg' (not_le.mp hsign)
    have hyear := period_unique julianStart_mono hlow hhigh hlow' hhigh'
    rw [number, number, if_neg (mt hiff.mp hsign), if_neg (mt hiff'.mp hsign), hyear] at hnumber'
    exact hd.ext_yearDay hd' hyear (by omega)

/-! The order of the dates -/

def monthIndex (d : Date) : ℤ := d.year * 12 + d.month

theorem yearDay_lt_of_month (hd : d.Valid) (hd' : d'.Valid) (hyear : d.year = d'.year) (hmonth : d.month < d'.month) :
    d.yearDay < d'.yearDay := by
  have hlater := monthStart_later (leapYear d.year) d.month hd.month_lt d'.month hd'.month_lt.le hmonth
  have hle := hd.day_le
  have hpos := hd'.day_pos
  rw [yearDay, yearDay, ← hyear]
  omega

theorem Valid.number_lt_of_month (hd : d.Valid) (hd' : d'.Valid) (hlt : d.monthIndex < d'.monthIndex) :
    d.number < d'.number := by
  obtain ⟨hlow, hhigh⟩ := hd.yearDay_bounds
  obtain ⟨hlow', hhigh'⟩ := hd'.yearDay_bounds
  have hmonth := hd.month_lt
  have hmonth' := hd'.month_lt
  have hcases : d.year < d'.year ∨ (d.year = d'.year ∧ d.month < d'.month) := by
    rw [monthIndex, monthIndex] at hlt
    omega
  have hkept : d.Gregorian → d'.Gregorian := by
    rw [Gregorian, Gregorian]
    omega
  by_cases hg : d.Gregorian
  · have hyear : 1582 ≤ d.year := by
      rw [Gregorian] at hg
      omega
    rw [number, number, if_pos hg, if_pos (hkept hg)]
    obtain hearlier | ⟨hsame, hmonths⟩ := hcases
    · have hmono := gregorianStart_mono (show d.year + 1 ≤ d'.year by omega)
      rw [gregorianStart_leapYear hyear] at hmono
      omega
    · have hdays := yearDay_lt_of_month hd hd' hsame hmonths
      rw [hsame]
      omega
  · by_cases hg' : d'.Gregorian
    · have hneg := mt hd.gregorian_iff.mpr hg
      have hpos := hd'.gregorian_iff.mp hg'
      omega
    · have hyear : d.year ≤ 1582 := by
        rw [Gregorian] at hg
        omega
      rw [number, number, if_neg hg, if_neg hg']
      obtain hearlier | ⟨hsame, hmonths⟩ := hcases
      · have hmono := julianStart_mono (show d.year + 1 ≤ d'.year by omega)
        rw [julianStart_leapYear hyear] at hmono
        omega
      · have hdays := yearDay_lt_of_month hd hd' hsame hmonths
        rw [hsame]
        omega

def monthEnd (year : ℤ) (month : ℕ) : Date := ⟨year, month, monthLength (leapYear year) month⟩

theorem monthLength_bounds (leap : Bool) : ∀ month < 12, 28 ≤ monthLength leap month ∧ monthLength leap month ≤ 31 := by
  cases leap <;> decide

theorem monthEnd_valid {year : ℤ} {month : ℕ} (hmonth : month < 12) : (monthEnd year month).Valid := by
  obtain ⟨hlow, -⟩ := monthLength_bounds (leapYear year) month hmonth
  refine ⟨hmonth, ?_, le_rfl, ?_⟩
  · change 1 ≤ monthLength (leapYear year) month
    omega
  · intro hgap
    have hday : monthLength (leapYear year) month < 15 := hgap.2.2.2
    omega

theorem number_sub (hyear : d.year = d'.year) (hmonth : d.month = d'.month) (hsame : d.Gregorian ↔ d'.Gregorian) :
    d'.number - d.number = d'.day - d.day := by
  rw [number, number, if_congr hsame rfl rfl, yearDay, yearDay, hyear, hmonth]
  split_ifs <;> omega

theorem Valid.number_le_of_day (hd : d.Valid) (hd' : d'.Valid) (hyear : d.year = d'.year) (hmonth : d.month = d'.month)
    (hday : d.day ≤ d'.day) : d.number ≤ d'.number := by
  have hkept : d.Gregorian → d'.Gregorian := by
    rw [Gregorian, Gregorian]
    omega
  by_cases hsame : d'.Gregorian → d.Gregorian
  · have hdays := number_sub hyear hmonth ⟨hkept, hsame⟩
    omega
  · obtain ⟨hg', hg⟩ := Classical.not_imp.mp hsame
    have hneg := mt hd.gregorian_iff.mpr hg
    have hpos := hd'.gregorian_iff.mp hg'
    omega

end Date

end lib
