import Dce.Dts.SignedDivision

namespace dce.dts

open lib

/-- `timespec_t` and `reltimespec_t`, where a `time_t` is a `long`. -/
structure timespec_t where
  tv_sec : BitVec 32
  tv_nsec : BitVec 32
  deriving DecidableEq, Repr

/-- `struct tm`, without the members for the time zone that only some systems have. -/
structure tm where
  tm_sec : BitVec 32
  tm_min : BitVec 32
  tm_hour : BitVec 32
  tm_mday : BitVec 32
  tm_mon : BitVec 32
  tm_year : BitVec 32
  tm_wday : BitVec 32
  tm_yday : BitVec 32
  tm_isdst : BitVec 32
  deriving DecidableEq, Repr

def UTCinit (lo hi : BitVec 32) : UTCValue := U64SET64 hi lo

def diff_UNIX_UTC_ticks : UTCValue := UTCinit 0x13814000 0x01b21dd2

def diff_UTC_UNIX_ticks : UTCValue := UTCinit 0xec7ec000 0xfe4de22d

def min_UNIX_time : UTCValue := UTCinit 0 0

def min_UNIX_sgn_time : UTCValue := UTCinit 0x80000000 0xffffffff

def max_UNIX_time : UTCValue := UTCinit 0xffffffff 0

def max_UNIX_sgn_time : UTCValue := UTCinit 0x7fffffff 0

def MINS_PER_HOUR : ℤ := 60

def HOURS_PER_DAY : ℤ := 24

section

variable (order : ByteOrder)

/-- An inaccuracy in a `timespec_t`, for `utc_bintime` and `utc_binreltime`. -/
def splitinaccsp (inaccvalue : UTCValue) : Except Failure timespec_t :=
  if IsInfiniteInacc inaccvalue then .ok ⟨-1, -1⟩
  else do
    let (inaccvalue, temp) ← UTCiDiv inaccvalue K_100NS_PER_SEC
    .ok ⟨inaccvalue.lo, temp * 100⟩

/-- The inaccuracy of a `timespec_t`, for `utc_mkbintime` and `utc_mkbinreltime`. -/
def mergeinaccsp (inaccsp : Option timespec_t) : Except Failure UTCValue :=
  match inaccsp with
  | none => UTCassign ⟨order, .b32⟩ K_INFINITE_INACC_LO K_INFINITE_INACC_HI
  | some inaccsp =>
    if inaccsp.tv_sec.slt 0 then UTCassign ⟨order, .b32⟩ K_INFINITE_INACC_LO K_INFINITE_INACC_HI
    else .ok (UTCiAdd (uemul inaccsp.tv_sec (.ofInt 32 K_100NS_PER_SEC)).value ((inaccsp.tv_nsec + 99).sdiv 100).toInt)

/-- `utc_bintime`, with a place for each of its results. The borrow from the seconds stays in their low word. -/
def utc_bintime (utc : utc_t) : Except Failure (timespec_t × timespec_t × ℤ) := do
  let (timevalue, inaccvalue, tdf) ← utc_comptime ⟨order, .b32⟩ utc
  let inaccsp ← splitinaccsp inaccvalue
  let timevalue := UTCadd timevalue diff_UTC_UNIX_ticks
  let (timevalue, temp) ← UTCiDiv timevalue K_100NS_PER_SEC
  let borrow := temp.slt 0
  let temp := if borrow then temp + .ofInt 32 K_100NS_PER_SEC else temp
  let timevalue := if borrow then U64SET64 timevalue.hi (timevalue.lo - 1) else timevalue
  if IsUTCgt timevalue max_UNIX_time || IsUTClt timevalue min_UNIX_time then .error .invalid
  else .ok (⟨timevalue.lo, temp * 100⟩, inaccsp, tdf)

def utc_mkbintime (timesp : timespec_t) (inaccsp : Option timespec_t) (tdf : ℤ) : Except Failure utc_t := do
  let inaccvalue ← mergeinaccsp order inaccsp
  let timevalue := (emul timesp.tv_sec (.ofInt 32 K_100NS_PER_SEC)).value
  let timevalue := UTCiAdd timevalue ((timesp.tv_nsec + 50).sdiv 100).toInt
  utc_mkcomptime ⟨order, .b32⟩ (UTCadd timevalue diff_UNIX_UTC_ticks) (some inaccvalue) tdf

/-- `utc_binreltime`: the borrow goes on to the high word when that is 0. -/
def utc_binreltime (utc : utc_t) : Except Failure (timespec_t × timespec_t) := do
  let (timevalue, inaccvalue, _) ← utc_comptime ⟨order, .b32⟩ utc
  let inaccsp ← splitinaccsp inaccvalue
  let (timevalue, temp) ← UTCiDiv timevalue K_100NS_PER_SEC
  let borrow := temp.slt 0
  let temp := if borrow then temp + .ofInt 32 K_100NS_PER_SEC else temp
  let hi := if borrow && timevalue.lo = 0 && timevalue.hi = 0 then timevalue.hi - 1 else timevalue.hi
  let timevalue := if borrow then U64SET64 hi (timevalue.lo - 1) else timevalue
  if IsUTCgt timevalue max_UNIX_sgn_time || IsUTClt timevalue min_UNIX_sgn_time then .error .invalid
  else .ok (⟨timevalue.lo, temp * 100⟩, inaccsp)

def utc_mkbinreltime (timesp : timespec_t) (inaccsp : Option timespec_t) : Except Failure utc_t := do
  let inaccvalue ← mergeinaccsp order inaccsp
  let timevalue := (emul timesp.tv_sec (.ofInt 32 K_100NS_PER_SEC)).value
  let timevalue := UTCiAdd timevalue ((timesp.tv_nsec + 50).sdiv 100).toInt
  utc_mkcomptime ⟨order, .b32⟩ timevalue (some inaccvalue) 0

/-- `splitinacc`, with the nanoseconds. -/
def splitinacc (inaccp : UTCValue) : Except Failure (tm × BitVec 32) :=
  if IsInfiniteInacc inaccp then .ok (⟨-1, -1, -1, -1, -1, -1, -1, -1, -1⟩, -1)
  else do
    let (utcTemp, temp) ← UTCiDiv inaccp K_100NS_PER_SEC
    let seconds := utcTemp.lo
    let minutes := seconds / .ofInt 32 SECS_PER_MIN
    let hours := minutes / .ofInt 32 MINS_PER_HOUR
    .ok ({ tm_sec := seconds % .ofInt 32 SECS_PER_MIN, tm_min := minutes % .ofInt 32 MINS_PER_HOUR,
           tm_hour := hours % .ofInt 32 HOURS_PER_DAY, tm_mday := -1, tm_mon := 0, tm_year := 0, tm_wday := -1,
           tm_yday := hours / .ofInt 32 HOURS_PER_DAY, tm_isdst := -1 }, temp * 100)

def mergeinacc (inacc : Option tm) (ins : BitVec 32) : Except Failure UTCValue :=
  match inacc with
  | none => UTCassign ⟨order, .b32⟩ K_INFINITE_INACC_LO K_INFINITE_INACC_HI
  | some inacc =>
    if inacc.tm_yday.slt 0 then UTCassign ⟨order, .b32⟩ K_INFINITE_INACC_LO K_INFINITE_INACC_HI
    else
      let hours := inacc.tm_yday * .ofInt 32 HOURS_PER_DAY + inacc.tm_hour
      let minutes := hours * .ofInt 32 MINS_PER_HOUR + inacc.tm_min
      let seconds := minutes * .ofInt 32 SECS_PER_MIN + inacc.tm_sec
      .ok (UTCiAdd (uemul seconds (.ofInt 32 K_100NS_PER_SEC)).value ((ins + 99).sdiv 100).toInt)

/-- `utc_reltime`, with a place for each of its results. The day of the week stays as it was. -/
def utc_reltime (timetm : tm) (utc : utc_t) : Except Failure ((tm × BitVec 32) × tm × BitVec 32) := do
  let (timevalue, inaccvalue, _) ← utc_comptime ⟨order, .b32⟩ utc
  let inacctm ← splitinacc inaccvalue
  let (timevalue, tns) ← UTCiDiv timevalue K_100NS_PER_SEC
  let (timevalue, tm_sec) ← UTCiDiv timevalue SECS_PER_MIN
  let (timevalue, tm_min) ← UTCiDiv timevalue MINS_PER_HOUR
  .ok (({ timetm with
          tm_sec, tm_min, tm_hour := timevalue.lo.srem (.ofInt 32 HOURS_PER_DAY), tm_mday := -1, tm_mon := 0, tm_year := 0,
          tm_yday := timevalue.lo.sdiv (.ofInt 32 HOURS_PER_DAY), tm_isdst := 0 }, tns * 100), inacctm)

def utc_mkreltime (timetm : tm) (tns : BitVec 32) (inacctm : Option tm) (ins : BitVec 32) : Except Failure utc_t := do
  let inaccvalue ← mergeinacc order inacctm ins
  let hours := timetm.tm_yday * .ofInt 32 HOURS_PER_DAY + timetm.tm_hour
  let timevalue := UTCiAdd (emul hours (.ofInt 32 MINS_PER_HOUR)).value timetm.tm_min.toInt
  let timevalue := UTCiAdd (UTCiMul timevalue (.ofInt 32 SECS_PER_MIN)) timetm.tm_sec.toInt
  let timevalue := UTCiAdd (UTCiMul timevalue (.ofInt 32 K_100NS_PER_SEC)) (tns.sdiv 100).toInt
  utc_mkcomptime ⟨order, .b32⟩ timevalue (some inaccvalue) 0

end

end dce.dts

namespace dce.dts

open lib

variable {order : ByteOrder} {utc : utc_t} {t inacc : UTCValue} {tdf : ℤ}

theorem lo_eq (v : UTCValue) : v.lo = .ofInt 32 v.toInt := by
  have hwords := toInt_words v
  have hlt := v.lo.isLt
  apply BitVec.eq_of_toNat_eq
  rw [BitVec.toNat_ofInt, hwords]
  omega

theorem toInt_borrow (v : UTCValue) (hi : BitVec 32) :
    (U64SET64 hi (v.lo - 1)).toInt = hi.toInt * 2 ^ 32 + (if v.lo = 0 then 2 ^ 32 - 1 else v.lo.toNat - 1) := by
  have hvalue := toInt_value ⟨hi, v.lo - 1⟩
  change (U64SET64 hi (v.lo - 1)).toInt = _ at hvalue
  have hlt := v.lo.isLt
  have hsub : (v.lo - 1).toNat = (2 ^ 32 - 1 + v.lo.toNat) % 2 ^ 32 := by
    rw [BitVec.toNat_sub]
    rfl
  have hzero : v.lo = 0 ↔ v.lo.toNat = 0 := by
    rw [← BitVec.toNat_inj]
    rfl
  rw [hvalue]
  dsimp only
  by_cases hlow : v.lo.toNat = 0
  · rw [if_pos (hzero.mpr hlow)]
    omega
  · rw [if_neg (mt hzero.mp hlow)]
    omega

theorem lo_borrow (v : UTCValue) (hi : BitVec 32) : UTCValue.lo (U64SET64 hi (v.lo - 1)) = .ofInt 32 (v.toInt - 1) := by
  have hwords := toInt_words v
  have hlt := v.lo.isLt
  rw [lo_eq, toInt_borrow]
  apply BitVec.eq_of_toNat_eq
  rw [BitVec.toNat_ofInt, BitVec.toNat_ofInt]
  have hzero : v.lo = 0 ↔ v.lo.toNat = 0 := by
    rw [← BitVec.toNat_inj]
    rfl
  by_cases hlow : v.lo.toNat = 0
  · rw [if_pos (hzero.mpr hlow)]
    omega
  · rw [if_neg (mt hzero.mp hlow)]
    omega

theorem seconds_spec (v : UTCValue) : ∃ temp : BitVec 32, UTCiDiv v K_100NS_PER_SEC =
      .ok (.ofInt 64 (v.toInt.tdiv K_100NS_PER_SEC), temp) ∧
    (BitVec.ofInt 64 (v.toInt.tdiv K_100NS_PER_SEC)).toInt = v.toInt.tdiv K_100NS_PER_SEC ∧
    (temp.slt 0 = true → v.toInt < 0 ∧ v.toInt % K_100NS_PER_SEC ≠ 0 ∧
      v.toInt.tdiv K_100NS_PER_SEC = v.toInt / K_100NS_PER_SEC + 1) ∧
    (temp.slt 0 = false → (v.toInt < 0 → v.toInt % K_100NS_PER_SEC = 0) ∧
      v.toInt.tdiv K_100NS_PER_SEC = v.toInt / K_100NS_PER_SEC) ∧
    (if temp.slt 0 then temp + .ofInt 32 K_100NS_PER_SEC else temp) = .ofInt 32 (v.toInt % K_100NS_PER_SEC) := by
  obtain ⟨temp, hdiv, hremd⟩ := UTCiDiv_spec v (I := K_100NS_PER_SEC) (by decide) (by decide) (by decide)
  obtain ⟨hsum, hlow, hhigh, hpos, hneg⟩ := tdiv_tmod_spec v.toInt (d := K_100NS_PER_SEC) (by decide)
  have hrange := toInt_inRange v
  rw [InRange] at hrange
  have hemod := Int.mul_ediv_add_emod v.toInt K_100NS_PER_SEC
  have hemodlow := Int.emod_nonneg v.toInt (b := K_100NS_PER_SEC) (by decide)
  have hemodhigh := Int.emod_lt_of_pos v.toInt (b := K_100NS_PER_SEC) (by decide)
  have hslt := slt_zero_iff temp
  rw [hremd] at hslt
  rw [K_100NS_PER_SEC] at *
  have hword : temp = .ofInt 32 (v.toInt.tmod 10000000) := by
    apply BitVec.eq_of_toInt_eq
    rw [hremd, BitVec.toInt_ofInt, Int.bmod_eq_of_le (by omega) (by omega)]
  refine ⟨temp, hdiv, toInt_ofInt_of_inRange ⟨by omega, by omega⟩, fun hborrow => ?_, fun hborrow => ?_, ?_⟩
  · have hsign := hslt.mp hborrow
    omega
  · have hsign := mt hslt.mpr (Bool.eq_false_iff.mp hborrow)
    omega
  · by_cases hborrow : temp.slt 0 = true
    · have hsign := hslt.mp hborrow
      rw [if_pos hborrow, hword, ← BitVec.ofInt_add]
      exact congrArg _ (by omega)
    · have hsign := mt hslt.mpr hborrow
      rw [if_neg hborrow, hword]
      exact congrArg _ (by omega)

/-! What the calls return -/

def unixTicks (t : UTCValue) : ℤ := t.toInt + diff_UTC_UNIX_ticks.toInt

/-- A number of 100 ns in seconds and nanoseconds, with the seconds before it. -/
def timespecOf (ticks : ℤ) : timespec_t := ⟨.ofInt 32 (ticks / K_100NS_PER_SEC), .ofInt 32 (ticks % K_100NS_PER_SEC * 100)⟩

/-- A number of 100 ns whose seconds are in a range. -/
def InSeconds (low high ticks : ℤ) : Prop := low * K_100NS_PER_SEC ≤ ticks ∧ ticks < high * K_100NS_PER_SEC

instance (low high ticks : ℤ) : Decidable (InSeconds low high ticks) := inferInstanceAs (Decidable (_ ∧ _))

theorem nsec_eq (ticks : ℤ) : BitVec.ofInt 32 (ticks % K_100NS_PER_SEC) * 100 = .ofInt 32 (ticks % K_100NS_PER_SEC * 100) := by
  rw [BitVec.ofInt_mul]
  rfl

theorem toInt_UTCadd_diff (t : UTCValue) : (UTCadd t diff_UTC_UNIX_ticks).toInt = unixTicks t ∨
    (unixTicks t < -2 ^ 33 * 10000000 ∧ 2 ^ 33 * 10000000 < (UTCadd t diff_UTC_UNIX_ticks).toInt) := by
  have hrange := toInt_inRange t
  have hdiff : diff_UTC_UNIX_ticks.toInt = -122192928000000000 := by decide
  rw [InRange] at hrange
  rw [UTCadd, BitVec.toInt_add, unixTicks, hdiff]
  by_cases hlow : -2 ^ 63 ≤ t.toInt + -122192928000000000
  · exact .inl (Int.bmod_eq_of_le (by omega) (by omega))
  · rw [Int.bmod_def]
    split_ifs <;> omega

theorem utc_bintime_eq (hcomptime : utc_comptime ⟨order, .b32⟩ utc = .ok (t, inacc, tdf)) {inaccsp : timespec_t}
    (hinaccsp : splitinaccsp inacc = .ok inaccsp) :
    utc_bintime order utc =
      if InSeconds (-1) (2 ^ 32) (unixTicks t) ∧ unixTicks t ≠ -K_100NS_PER_SEC then
        .ok (timespecOf (unixTicks t), inaccsp, tdf)
      else .error .invalid := by
  obtain ⟨temp, hdiv, hquot, hborrow, hnone, htemp⟩ := seconds_spec (UTCadd t diff_UTC_UNIX_ticks)
  have hadd := toInt_UTCadd_diff t
  have hmax : max_UNIX_time.toInt = 2 ^ 32 - 1 := by decide
  have hmin : min_UNIX_time.toInt = 0 := by decide
  have hin : InSeconds (-1) (2 ^ 32) (unixTicks t) ∧ unixTicks t ≠ -K_100NS_PER_SEC ↔
      -10000000 < unixTicks t ∧ unixTicks t < 2 ^ 32 * 10000000 := by
    rw [InSeconds, K_100NS_PER_SEC]
    omega
  rw [utc_bintime, bind_of_ok _ hcomptime]
  dsimp only
  rw [bind_of_ok _ hinaccsp, bind_of_ok _ hdiv]
  dsimp only
  rw [htemp]
  simp only [Bool.or_eq_true, IsUTCgt_iff, IsUTClt_iff, hmax, hmin]
  clear hdiv htemp hmax hmin
  generalize UTCadd t diff_UTC_UNIX_ticks = s at *
  generalize BitVec.ofInt 64 (s.toInt.tdiv K_100NS_PER_SEC) = seconds at *
  have hwords := toInt_words seconds
  have hlo := (UTCValue.lo seconds).isLt
  have hzero : UTCValue.lo seconds = 0 ↔ (UTCValue.lo seconds).toNat = 0 := by
    rw [← BitVec.toNat_inj]
    rfl
  rw [nsec_eq, timespecOf]
  by_cases hneg : temp.slt 0 = true
  · obtain ⟨hs, hrest, hfloor⟩ := hborrow hneg
    rw [hfloor] at hquot
    have hsame : s.toInt = unixTicks t := hadd.resolve_right fun hwrap => by omega
    rw [hsame] at hs hrest hquot ⊢
    simp only [if_pos hneg, toInt_borrow, lo_borrow, hquot, add_sub_cancel_right]
    clear hborrow hnone hfloor hadd hsame
    rw [K_100NS_PER_SEC] at hquot hrest
    by_cases hlast : -10000000 < unixTicks t ∧ unixTicks t < 2 ^ 32 * 10000000
    · -- the seconds are 0, so the low word becomes the greatest one and the high word stays
      have hsecond : seconds.toInt = 0 := by omega
      have hlow : (UTCValue.lo seconds).toNat = 0 := by omega
      rw [if_pos (hin.mpr hlast), if_pos (hzero.mpr hlow), if_neg (by omega)]
    · rw [if_neg (mt hin.mp hlast)]
      by_cases hlow : (UTCValue.lo seconds).toNat = 0
      · rw [if_pos (hzero.mpr hlow), if_pos (by omega)]
      · rw [if_neg (mt hzero.mp hlow), if_pos (by omega)]
  · obtain ⟨hwhole, hfloor⟩ := hnone (Bool.eq_false_iff.mpr hneg)
    rw [hfloor] at hquot
    simp only [if_neg hneg, lo_eq, hquot]
    clear hborrow hnone hfloor hquot hwords
    obtain hsame | ⟨hwrap, hfar⟩ := hadd
    · rw [hsame] at hwhole ⊢
      by_cases hrep : -10000000 < unixTicks t ∧ unixTicks t < 2 ^ 32 * 10000000
      · rw [if_pos (hin.mpr hrep), if_neg (by rw [K_100NS_PER_SEC] at *; omega)]
      · rw [if_neg (mt hin.mp hrep), if_pos (by rw [K_100NS_PER_SEC] at *; omega)]
    · have hnot : ¬(-10000000 < unixTicks t ∧ unixTicks t < 2 ^ 32 * 10000000) := by omega
      rw [if_neg (mt hin.mp hnot), if_pos (by rw [K_100NS_PER_SEC]; omega)]

/-- The times of the second before -2³² seconds: the borrow from a low word of 0 goes on only when the high word is 0 too. -/
def BorrowLost (t : UTCValue) : Prop :=
  -(2 ^ 32 + 1) * K_100NS_PER_SEC < t.toInt ∧ t.toInt < -2 ^ 32 * K_100NS_PER_SEC

instance (t : UTCValue) : Decidable (BorrowLost t) := inferInstanceAs (Decidable (_ ∧ _))

theorem utc_binreltime_eq (hcomptime : utc_comptime ⟨order, .b32⟩ utc = .ok (t, inacc, tdf)) {inaccsp : timespec_t}
    (hinaccsp : splitinaccsp inacc = .ok inaccsp) :
    utc_binreltime order utc =
      if InSeconds (-2 ^ 31) (2 ^ 31) t.toInt ∨ BorrowLost t then .ok (timespecOf t.toInt, inaccsp)
      else .error .invalid := by
  obtain ⟨temp, hdiv, hquot, hborrow, hnone, htemp⟩ := seconds_spec t
  have hmax : max_UNIX_sgn_time.toInt = 2 ^ 31 - 1 := by decide
  have hmin : min_UNIX_sgn_time.toInt = -2 ^ 31 := by decide
  have hin : InSeconds (-2 ^ 31) (2 ^ 31) t.toInt ∨ BorrowLost t ↔
      (-2 ^ 31 * 10000000 ≤ t.toInt ∧ t.toInt < 2 ^ 31 * 10000000) ∨
        (-(2 ^ 32 + 1) * 10000000 < t.toInt ∧ t.toInt < -2 ^ 32 * 10000000) := Iff.rfl
  rw [utc_binreltime, bind_of_ok _ hcomptime]
  dsimp only
  rw [bind_of_ok _ hinaccsp, bind_of_ok _ hdiv]
  dsimp only
  rw [htemp]
  simp only [Bool.or_eq_true, IsUTCgt_iff, IsUTClt_iff, hmax, hmin, Bool.and_eq_true, decide_eq_true_eq]
  clear hdiv htemp hmax hmin
  generalize BitVec.ofInt 64 (t.toInt.tdiv K_100NS_PER_SEC) = seconds at *
  have hwords := toInt_words seconds
  have hlo := (UTCValue.lo seconds).isLt
  have hzero : UTCValue.lo seconds = 0 ↔ (UTCValue.lo seconds).toNat = 0 := by
    rw [← BitVec.toNat_inj]
    rfl
  have hhigh : UTCValue.hi seconds = 0 ↔ (UTCValue.hi seconds).toInt = 0 := by
    rw [← BitVec.toInt_inj]
    rfl
  rw [nsec_eq, timespecOf]
  refine Eq.trans ?_ (if_congr hin rfl rfl).symm
  clear hin
  by_cases hneg : temp.slt 0 = true
  · obtain ⟨ht, hrest, hfloor⟩ := hborrow hneg
    rw [hfloor] at hquot
    simp only [hneg, true_and, if_true, toInt_borrow, lo_borrow, hquot, add_sub_cancel_right]
    clear hborrow hnone hfloor
    rw [K_100NS_PER_SEC] at hquot hrest
    refine (if_congr ?_ rfl rfl).trans (ite_not ..)
    by_cases hlow : (UTCValue.lo seconds).toNat = 0
    · by_cases hhi : (UTCValue.hi seconds).toInt = 0
      · have hminus : (UTCValue.hi seconds - 1).toInt = -1 := by
          rw [hhigh.mpr hhi]
          decide
        rw [if_pos (hzero.mpr hlow), if_pos ⟨hzero.mpr hlow, hhigh.mpr hhi⟩, hminus]
        omega
      · rw [if_pos (hzero.mpr hlow), if_neg fun h => hhi (hhigh.mp h.2)]
        omega
    · rw [if_neg (mt hzero.mp hlow), if_neg fun h => hlow (hzero.mp h.1)]
      omega
  · obtain ⟨hwhole, hfloor⟩ := hnone (Bool.eq_false_iff.mpr hneg)
    rw [hfloor] at hquot
    simp only [hneg, Bool.false_eq_true, false_and, if_false, lo_eq, hquot]
    clear hborrow hnone hfloor hquot hwords
    refine (if_congr ?_ rfl rfl).trans (ite_not ..)
    rw [K_100NS_PER_SEC] at *
    omega

end dce.dts
