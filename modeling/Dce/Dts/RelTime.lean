import Dce.Dts.BinTimeExact

namespace dce.dts

open lib

variable {order : ByteOrder} {utc : utc_t} {t inacc : UTCValue} {tdf : ℤ}

theorem UTCiDiv_parts (v : UTCValue) {d : ℤ} (hd : 0 < d) (hd' : d < 2 ^ 31) :
    ∃ (q : ℤ) (remd : BitVec 32), UTCiDiv v d = .ok (.ofInt 64 q, remd) ∧ (BitVec.ofInt 64 q).toInt = q ∧
      d * q + remd.toInt = v.toInt ∧ -d < remd.toInt ∧ remd.toInt < d ∧ (0 ≤ v.toInt → 0 ≤ remd.toInt ∧ 0 ≤ q) ∧
      (v.toInt ≤ 0 → remd.toInt ≤ 0 ∧ q ≤ 0) := by
  obtain ⟨remd, hdiv, hremd⟩ := UTCiDiv_spec v hd.ne' (by omega) hd'
  obtain ⟨hsum, hlow, hhigh, hpos, hneg⟩ := tdiv_tmod_spec v.toInt hd
  have habs := Int.natAbs_tdiv_le_natAbs v.toInt d
  have hrange := toInt_inRange v
  rw [InRange] at hrange
  have hquot := Int.tdiv_nonneg (a := v.toInt) (b := d)
  have hquot' (hv : v.toInt ≤ 0) : v.toInt.tdiv d ≤ 0 := by
    have hneg := Int.tdiv_nonneg (neg_nonneg.mpr hv) hd.le
    rw [Int.neg_tdiv] at hneg
    omega
  rw [← hremd] at hsum hlow hhigh hpos hneg
  generalize v.toInt.tdiv d = q at *
  have hq : InRange q := by
    rw [InRange]
    obtain hv | hv := le_total 0 v.toInt
    · have hq := hquot hv hd.le
      omega
    · have hq := hquot' hv
      omega
  exact ⟨q, remd, hdiv, toInt_ofInt_of_inRange hq, hsum, hlow, hhigh, fun h => ⟨hpos h, hquot h hd.le⟩,
    fun h => ⟨hneg h, hquot' h⟩⟩

/-! Relative times -/

/-- The members of a `struct tm` and the nanoseconds for a relative time, all with one sign. -/
structure IsRelTm (timetm : tm) (tns : BitVec 32) (frac : ℤ) : Prop where
  tns_eq : tns.toInt = frac * 100
  frac_lt : -K_100NS_PER_SEC < frac ∧ frac < K_100NS_PER_SEC
  sec_lt : -SECS_PER_MIN < timetm.tm_sec.toInt ∧ timetm.tm_sec.toInt < SECS_PER_MIN
  min_lt : -MINS_PER_HOUR < timetm.tm_min.toInt ∧ timetm.tm_min.toInt < MINS_PER_HOUR
  hour_lt : -HOURS_PER_DAY < timetm.tm_hour.toInt ∧ timetm.tm_hour.toInt < HOURS_PER_DAY
  sign : (0 ≤ frac ∧ 0 ≤ timetm.tm_sec.toInt ∧ 0 ≤ timetm.tm_min.toInt ∧ 0 ≤ timetm.tm_hour.toInt ∧ 0 ≤ timetm.tm_yday.toInt) ∨
    (frac ≤ 0 ∧ timetm.tm_sec.toInt ≤ 0 ∧ timetm.tm_min.toInt ≤ 0 ∧ timetm.tm_hour.toInt ≤ 0 ∧ timetm.tm_yday.toInt ≤ 0)
  date : timetm.tm_mday = -1 ∧ timetm.tm_mon = 0 ∧ timetm.tm_year = 0 ∧ timetm.tm_isdst = 0

def tm.ticks (timetm : tm) (frac : ℤ) : ℤ :=
  (((timetm.tm_yday.toInt * HOURS_PER_DAY + timetm.tm_hour.toInt) * MINS_PER_HOUR + timetm.tm_min.toInt) * SECS_PER_MIN +
    timetm.tm_sec.toInt) * K_100NS_PER_SEC + frac

variable {tns : BitVec 32} {frac : ℤ} {timetm : tm} {a b : tm}

theorem tm.ext_toInt (hsec : a.tm_sec.toInt = b.tm_sec.toInt) (hmin : a.tm_min.toInt = b.tm_min.toInt)
    (hhour : a.tm_hour.toInt = b.tm_hour.toInt) (hyday : a.tm_yday.toInt = b.tm_yday.toInt)
    (hdate : a.tm_mday = b.tm_mday ∧ a.tm_mon = b.tm_mon ∧ a.tm_year = b.tm_year ∧ a.tm_isdst = b.tm_isdst)
    (hwday : a.tm_wday = b.tm_wday) : a = b := by
  obtain ⟨hmday, hmon, hyear, hisdst⟩ := hdate
  exact (tm.mk.injEq ..).mpr ⟨BitVec.eq_of_toInt_eq hsec, BitVec.eq_of_toInt_eq hmin, BitVec.eq_of_toInt_eq hhour, hmday,
    hmon, hyear, hwday, BitVec.eq_of_toInt_eq hyday, hisdst⟩

theorem IsRelTm.unique {tns tns' : BitVec 32} {frac frac' : ℤ} (ha : IsRelTm a tns frac)
    (hb : IsRelTm b tns' frac') (hticks : a.ticks frac = b.ticks frac') (hwday : a.tm_wday = b.tm_wday) :
    a = b ∧ tns = tns' := by
  obtain ⟨htns, hfrac, hsec, hmin, hhour, hsign, hmday, hmon, hyear, hisdst⟩ := ha
  obtain ⟨htns', hfrac', hsec', hmin', hhour', hsign', hmday', hmon', hyear', hisdst'⟩ := hb
  simp only [tm.ticks, K_100NS_PER_SEC, SECS_PER_MIN, MINS_PER_HOUR, HOURS_PER_DAY] at *
  have hf : frac = frac' := by omega
  have hs : a.tm_sec.toInt = b.tm_sec.toInt := by omega
  have hm : a.tm_min.toInt = b.tm_min.toInt := by omega
  have hh : a.tm_hour.toInt = b.tm_hour.toInt := by omega
  have hd : a.tm_yday.toInt = b.tm_yday.toInt := by omega
  refine ⟨tm.ext_toInt hs hm hh hd ⟨hmday.trans hmday'.symm, hmon.trans hmon'.symm, hyear.trans hyear'.symm,
    hisdst.trans hisdst'.symm⟩ hwday, BitVec.eq_of_toInt_eq ?_⟩
  rw [htns, htns', hf]

theorem toInt_lo {v : UTCValue} (hlow : -2 ^ 31 ≤ v.toInt) (hhigh : v.toInt < 2 ^ 31) : v.lo.toInt = v.toInt := by
  rw [lo_eq, BitVec.toInt_ofInt, Int.bmod_eq_of_le (by omega) (by omega)]

theorem toInt_mul_small {v w : BitVec 32} (hlow : -2 ^ 31 ≤ v.toInt * w.toInt) (hhigh : v.toInt * w.toInt < 2 ^ 31) :
    (v * w).toInt = v.toInt * w.toInt := by
  rw [BitVec.toInt_mul, Int.bmod_eq_of_le (by omega) (by omega)]

theorem utc_reltime_eq (hcomptime : utc_comptime ⟨order, .b32⟩ utc = .ok (t, inacc, tdf)) {inacctm : tm × BitVec 32}
    (hinacctm : splitinacc inacc = .ok inacctm) (before : tm) :
    ∃ timetm tns frac, utc_reltime order before utc = .ok ((timetm, tns), inacctm) ∧ IsRelTm timetm tns frac ∧
      timetm.ticks frac = t.toInt ∧ timetm.tm_wday = before.tm_wday := by
  obtain ⟨q₁, tns, hdiv₁, hq₁, hsum₁, hlow₁, hhigh₁, hpos₁, hneg₁⟩ := UTCiDiv_parts t (d := K_100NS_PER_SEC) (by decide) (by decide)
  obtain ⟨q₂, sec, hdiv₂, hq₂, hsum₂, hlow₂, hhigh₂, hpos₂, hneg₂⟩ :=
    UTCiDiv_parts (.ofInt 64 q₁) (d := SECS_PER_MIN) (by decide) (by decide)
  obtain ⟨q₃, min, hdiv₃, hq₃, hsum₃, hlow₃, hhigh₃, hpos₃, hneg₃⟩ :=
    UTCiDiv_parts (.ofInt 64 q₂) (d := MINS_PER_HOUR) (by decide) (by decide)
  have hrange := toInt_inRange t
  rw [hq₁] at hsum₂ hpos₂ hneg₂
  rw [hq₂] at hsum₃ hpos₃ hneg₃
  rw [utc_reltime, bind_of_ok _ hcomptime]
  dsimp only
  rw [bind_of_ok _ hinacctm, bind_of_ok _ hdiv₁]
  dsimp only
  rw [bind_of_ok _ hdiv₂]
  dsimp only
  rw [bind_of_ok _ hdiv₃]
  clear hdiv₁ hdiv₂ hdiv₃
  rw [InRange] at hrange
  rw [K_100NS_PER_SEC] at *
  rw [SECS_PER_MIN] at *
  rw [MINS_PER_HOUR] at *
  have hfits : -300000000 ≤ q₃ ∧ q₃ ≤ 300000000 := by omega
  have hlo : (UTCValue.lo (.ofInt 64 q₃)).toInt = q₃ := by rw [toInt_lo, hq₃] <;> omega
  have hhours : (BitVec.ofInt 32 HOURS_PER_DAY).toInt = 24 := by decide
  have hhour : ((UTCValue.lo (.ofInt 64 q₃)).srem (.ofInt 32 HOURS_PER_DAY)).toInt = q₃.tmod 24 := by
    rw [BitVec.toInt_srem, hlo, hhours]
  obtain ⟨hsum₄, hlow₄, hhigh₄, hpos₄, hneg₄⟩ := tdiv_tmod_spec q₃ (d := 24) (by decide)
  have hdays : ((UTCValue.lo (.ofInt 64 q₃)).sdiv (.ofInt 32 HOURS_PER_DAY)).toInt = q₃.tdiv 24 := by
    rw [BitVec.toInt_sdiv, hlo, hhours]
    generalize q₃.tdiv 24 = days at *
    rw [Int.bmod_eq_of_le (by omega) (by omega)]
  have htns : (tns * 100).toInt = tns.toInt * 100 := by
    have hhundred : (100 : BitVec 32).toInt = 100 := by decide
    rw [toInt_mul_small, hhundred] <;> rw [hhundred] <;> omega
  refine ⟨⟨sec, min, (UTCValue.lo (.ofInt 64 q₃)).srem (.ofInt 32 HOURS_PER_DAY), -1, 0, 0, before.tm_wday,
    (UTCValue.lo (.ofInt 64 q₃)).sdiv (.ofInt 32 HOURS_PER_DAY), 0⟩, tns * 100, tns.toInt, rfl, ?_, ?_, rfl⟩
  · constructor
    case tns_eq => exact htns
    case frac_lt => exact ⟨hlow₁, hhigh₁⟩
    case sec_lt => exact ⟨hlow₂, hhigh₂⟩
    case min_lt => exact ⟨hlow₃, hhigh₃⟩
    case hour_lt =>
      dsimp only
      rw [hhour]
      exact ⟨hlow₄, hhigh₄⟩
    case sign =>
      dsimp only
      rw [hhour, hdays]
      generalize q₃.tdiv 24 = days at *
      generalize q₃.tmod 24 = hour at *
      obtain hsign | hsign := le_total 0 t.toInt
      · refine .inl ?_
        omega
      · refine .inr ?_
        omega
    case date => exact ⟨rfl, rfl, rfl, rfl⟩
  · rw [tm.ticks]
    dsimp only
    rw [hhour, hdays, K_100NS_PER_SEC, SECS_PER_MIN, MINS_PER_HOUR, HOURS_PER_DAY]
    generalize q₃.tdiv 24 = days at *
    generalize q₃.tmod 24 = hour at *
    omega

theorem toInt_tns (htns : tns.toInt = frac * 100) : (tns.sdiv 100).toInt = frac := by
  have hhundred : (100 : BitVec 32).toInt = 100 := by decide
  have hlow := tns.le_toInt
  have hhigh := tns.toInt_lt
  rw [BitVec.toInt_sdiv, htns, hhundred, Int.mul_tdiv_cancel _ (by decide), Int.bmod_eq_of_le (by omega) (by omega)]

theorem hours_eq (yday hour : BitVec 32) :
    yday * .ofInt 32 HOURS_PER_DAY + hour = .ofInt 32 (yday.toInt * HOURS_PER_DAY + hour.toInt) := by
  rw [BitVec.ofInt_add, BitVec.ofInt_mul, BitVec.ofInt_toInt, BitVec.ofInt_toInt]

theorem UTCiMul_ofInt (x : ℤ) {c : ℤ} {I : BitVec 32} (hI : I.toInt = c) : UTCiMul (.ofInt 64 x) I = .ofInt 64 (x * c) := by
  rw [UTCiMul_eq, hI, BitVec.ofInt_mul, BitVec.ofInt_toInt, ← BitVec.ofInt_mul]

theorem UTCiAdd_ofInt (x k : ℤ) : UTCiAdd (.ofInt 64 x) k = .ofInt 64 (x + k) := by rw [UTCiAdd, BitVec.ofInt_add]

theorem reltime_value (htns : tns.toInt = frac * 100)
    (hhours : (timetm.tm_yday * .ofInt 32 HOURS_PER_DAY + timetm.tm_hour).toInt =
      timetm.tm_yday.toInt * HOURS_PER_DAY + timetm.tm_hour.toInt) :
    UTCiAdd (UTCiMul (UTCiAdd (UTCiMul (UTCiAdd (emul (timetm.tm_yday * .ofInt 32 HOURS_PER_DAY + timetm.tm_hour)
      (.ofInt 32 MINS_PER_HOUR)).value timetm.tm_min.toInt) (.ofInt 32 SECS_PER_MIN)) timetm.tm_sec.toInt)
      (.ofInt 32 K_100NS_PER_SEC)) (tns.sdiv 100).toInt = .ofInt 64 (timetm.ticks frac) := by
  have hmins : (BitVec.ofInt 32 MINS_PER_HOUR).toInt = MINS_PER_HOUR := by decide
  have hsecs : (BitVec.ofInt 32 SECS_PER_MIN).toInt = SECS_PER_MIN := by decide
  rw [toInt_tns htns, value_emul, hhours, hmins, UTCiAdd_ofInt, UTCiMul_ofInt _ hsecs, UTCiAdd_ofInt, UTCiMul_ofInt _ toInt_K,
    UTCiAdd_ofInt, tm.ticks]

theorem IsRelTm.hours_fit (htm : IsRelTm timetm tns frac)
    (hrange : InRange (timetm.ticks frac)) :
    (timetm.tm_yday * .ofInt 32 HOURS_PER_DAY + timetm.tm_hour).toInt =
      timetm.tm_yday.toInt * HOURS_PER_DAY + timetm.tm_hour.toInt := by
  obtain ⟨-, hfrac, hsec, hmin, hhour, hsign, -⟩ := htm
  rw [InRange, tm.ticks] at hrange
  rw [hours_eq, BitVec.toInt_ofInt]
  rw [K_100NS_PER_SEC] at *
  rw [SECS_PER_MIN] at *
  rw [MINS_PER_HOUR] at *
  rw [HOURS_PER_DAY] at *
  rw [Int.bmod_eq_of_le (by omega) (by omega)]

theorem utc_mkreltime_reads (htm : IsRelTm timetm tns frac)
    (hrange : InRange (timetm.ticks frac)) {inacctm : Option tm} {ins : BitVec 32} {i : UTCValue}
    (hinacc : mergeinacc order inacctm ins = .ok i) :
    ∃ utc, utc_mkreltime order timetm tns inacctm ins = .ok utc ∧ utc_comptime ⟨order, .b32⟩ utc =
      .ok (.ofInt 64 (timetm.ticks frac), givenInacc (some i), 0) := by
  obtain ⟨utc, tdf', hmake, hreads, htdf⟩ := utc_mkcomptime_reads order (.ofInt 64 (timetm.ticks frac)) i 0
  obtain rfl := htdf ⟨0, by decide, by decide, by decide⟩
  refine ⟨utc, ?_, hreads⟩
  rw [utc_mkreltime, bind_of_ok _ hinacc]
  dsimp only
  rw [reltime_value htm.tns_eq (htm.hours_fit hrange)]
  exact hmake

/-! Inaccuracies as a `struct tm` -/

/-- The members of a `struct tm` and the nanoseconds for a finite inaccuracy. -/
structure IsInaccTm (inacc : tm) (ins : BitVec 32) (frac : ℤ) : Prop where
  ins_eq : ins.toInt = frac * 100
  frac_lt : 0 ≤ frac ∧ frac < K_100NS_PER_SEC
  sec_lt : 0 ≤ inacc.tm_sec.toInt ∧ inacc.tm_sec.toInt < SECS_PER_MIN
  min_lt : 0 ≤ inacc.tm_min.toInt ∧ inacc.tm_min.toInt < MINS_PER_HOUR
  hour_lt : 0 ≤ inacc.tm_hour.toInt ∧ inacc.tm_hour.toInt < HOURS_PER_DAY
  yday_nonneg : 0 ≤ inacc.tm_yday.toInt
  date : inacc.tm_mday = -1 ∧ inacc.tm_mon = 0 ∧ inacc.tm_year = 0 ∧ inacc.tm_isdst = -1
  wday : inacc.tm_wday = -1
  finite : IsFinite (inacc.ticks frac)

theorem IsInaccTm.unique {ins ins' : BitVec 32} {frac frac' : ℤ} (ha : IsInaccTm a ins frac)
    (hb : IsInaccTm b ins' frac') (hticks : a.ticks frac = b.ticks frac') : a = b ∧ ins = ins' := by
  obtain ⟨hins, hfrac, hsec, hmin, hhour, hyday, ⟨hmday, hmon, hyear, hisdst⟩, hwday, -⟩ := ha
  obtain ⟨hins', hfrac', hsec', hmin', hhour', hyday', ⟨hmday', hmon', hyear', hisdst'⟩, hwday', -⟩ := hb
  simp only [tm.ticks, K_100NS_PER_SEC, SECS_PER_MIN, MINS_PER_HOUR, HOURS_PER_DAY] at *
  have hf : frac = frac' := by omega
  have hs : a.tm_sec.toInt = b.tm_sec.toInt := by omega
  have hm : a.tm_min.toInt = b.tm_min.toInt := by omega
  have hh : a.tm_hour.toInt = b.tm_hour.toInt := by omega
  have hd : a.tm_yday.toInt = b.tm_yday.toInt := by omega
  refine ⟨tm.ext_toInt hs hm hh hd ⟨hmday.trans hmday'.symm, hmon.trans hmon'.symm, hyear.trans hyear'.symm,
    hisdst.trans hisdst'.symm⟩ (hwday.trans hwday'.symm), BitVec.eq_of_toInt_eq ?_⟩
  rw [hins, hins', hf]

theorem toInt_udiv_word {w : BitVec 32} {x c : ℤ} {d : BitVec 32} (hw : (w.toNat : ℤ) = x) (hd : (d.toNat : ℤ) = c)
    (hlt : x < 2 ^ 31) (hc : 0 < c) : ((w / d).toNat : ℤ) = x / c ∧ (w % d).toInt = x % c := by
  have hnonneg : 0 ≤ x := hw ▸ Int.natCast_nonneg _
  constructor
  · rw [BitVec.toNat_udiv, Int.natCast_ediv, hw, hd]
  · have hmod : ((w % d).toNat : ℤ) = x % c := by rw [BitVec.toNat_umod, Int.natCast_emod, hw, hd]
    have hle : x % c ≤ x := by
      have hquot := Int.mul_nonneg hc.le (Int.ediv_nonneg hnonneg hc.le)
      have hsplit := Int.mul_ediv_add_emod x c
      omega
    rw [BitVec.toInt_eq_toNat_of_lt (by omega), hmod]

theorem splitinacc_finite {ticks : ℤ} (hfinite : IsFinite ticks) :
    ∃ inacc ins frac, splitinacc (.ofInt 64 ticks) = .ok (inacc, ins) ∧ IsInaccTm inacc ins frac ∧
      inacc.ticks frac = ticks := by
  obtain ⟨-, hnot, hvalue⟩ := givenInacc_finite hfinite
  obtain ⟨q, temp, hdiv, hq, hsum, hlow, hhigh, hpos, -⟩ :=
    UTCiDiv_parts (.ofInt 64 ticks) (d := K_100NS_PER_SEC) (by decide) (by decide)
  have hseconds := lo_eq (.ofInt 64 q)
  rw [hq] at hseconds
  rw [hvalue] at hsum hpos
  obtain ⟨hnonneg, hlt⟩ := hfinite
  obtain ⟨htemp, hqnonneg⟩ := hpos hnonneg
  rw [splitinacc, if_neg (by rw [hnot]; decide), bind_of_ok _ hdiv]
  clear hdiv
  rw [K_100NS_PER_SEC] at *
  have hq' : q < 2 ^ 31 := by omega
  have hword : ((UTCValue.lo (.ofInt 64 q)).toNat : ℤ) = q := by
    rw [hseconds, BitVec.toNat_ofInt]
    omega
  have hsecs : ((BitVec.ofInt 32 SECS_PER_MIN).toNat : ℤ) = 60 := by decide
  have hmins : ((BitVec.ofInt 32 MINS_PER_HOUR).toNat : ℤ) = 60 := by decide
  have hhours : ((BitVec.ofInt 32 HOURS_PER_DAY).toNat : ℤ) = 24 := by decide
  obtain ⟨hminutes, hsec⟩ := toInt_udiv_word hword hsecs hq' (by decide)
  obtain ⟨hhour, hmin⟩ := toInt_udiv_word hminutes hmins (by omega) (by decide)
  obtain ⟨hday, hhr⟩ := toInt_udiv_word hhour hhours (by omega) (by decide)
  have hyday := hday
  rw [← BitVec.toInt_eq_toNat_of_lt (by omega)] at hyday
  have hhundred : (100 : BitVec 32).toInt = 100 := by decide
  have hins : (temp * 100).toInt = temp.toInt * 100 := by
    rw [toInt_mul_small, hhundred] <;> rw [hhundred] <;> omega
  have hticks : (((q / 60 / 60 / 24 * 24 + q / 60 / 60 % 24) * 60 + q / 60 % 60) * 60 + q % 60) * 10000000 + temp.toInt =
      ticks := by omega
  refine ⟨_, temp * 100, temp.toInt, rfl, ?_, ?_⟩
  · constructor
    case ins_eq => exact hins
    case frac_lt => exact ⟨htemp, hhigh⟩
    case sec_lt =>
      rw [hsec, SECS_PER_MIN]
      omega
    case min_lt =>
      rw [hmin, MINS_PER_HOUR]
      omega
    case hour_lt =>
      rw [hhr, HOURS_PER_DAY]
      omega
    case yday_nonneg =>
      rw [hyday]
      omega
    case date => exact ⟨rfl, rfl, rfl, rfl⟩
    case wday => rfl
    case finite =>
      rw [tm.ticks, hsec, hmin, hhr, hyday]
      exact hticks ▸ ⟨hnonneg, hlt⟩
  · rw [tm.ticks, hsec, hmin, hhr, hyday]
    exact hticks

theorem mergeinacc_finite {inacc : tm} {ins : BitVec 32} (htm : IsInaccTm inacc ins frac) :
    mergeinacc order (some inacc) ins = .ok (.ofInt 64 (inacc.ticks frac)) := by
  obtain ⟨hins, ⟨hfrac, hfrac'⟩, hsec, hmin, hhour, hyday, -, -, hnonneg, hlt⟩ := htm
  have hsign : inacc.tm_yday.slt 0 = false := by
    refine Bool.eq_false_iff.mpr fun h => ?_
    have habs := (slt_zero_iff _).mp h
    omega
  have hround := toInt_nsec (k := 99) hins hfrac hfrac' (by decide) (by decide)
  change ((ins + 99).sdiv 100).toInt = frac at hround
  have hseconds : ((inacc.tm_yday * .ofInt 32 HOURS_PER_DAY + inacc.tm_hour) * .ofInt 32 MINS_PER_HOUR + inacc.tm_min) *
      .ofInt 32 SECS_PER_MIN + inacc.tm_sec = .ofInt 32 (((inacc.tm_yday.toInt * HOURS_PER_DAY + inacc.tm_hour.toInt) *
        MINS_PER_HOUR + inacc.tm_min.toInt) * SECS_PER_MIN + inacc.tm_sec.toInt) := by
    simp only [BitVec.ofInt_add, BitVec.ofInt_mul, BitVec.ofInt_toInt]
  have hK : ((BitVec.ofInt 32 K_100NS_PER_SEC).toNat : ℤ) = K_100NS_PER_SEC := by decide
  rw [mergeinacc]
  dsimp only
  rw [if_neg (by rw [hsign]; decide), hseconds, hround, value_uemul, hK, UTCiAdd_ofInt, tm.ticks]
  rw [tm.ticks] at hnonneg hlt
  rw [K_100NS_PER_SEC, SECS_PER_MIN, MINS_PER_HOUR, HOURS_PER_DAY] at *
  rw [BitVec.toNat_ofInt]
  refine congrArg (fun ticks => Except.ok (BitVec.ofInt 64 ticks)) ?_
  omega

theorem inacctm_spec (order : ByteOrder) (hgiven : givenInacc (some inacc) = inacc) :
    ∃ inacctm ins, splitinacc inacc = .ok (inacctm, ins) ∧ mergeinacc order (some inacctm) ins = .ok inacc := by
  obtain rfl | ⟨ticks, hfinite, rfl⟩ := inacc_cases hgiven
  · exact ⟨_, _, rfl, rfl⟩
  · obtain ⟨inacctm, ins, frac, hsplit, htm, hticks⟩ := splitinacc_finite hfinite
    exact ⟨inacctm, ins, hsplit, by rw [mergeinacc_finite htm, hticks]⟩

theorem mergeinacc_split (order : ByteOrder) (inacctm : tm) (ins : BitVec 32) :
    ∃ i out, mergeinacc order (some inacctm) ins = .ok i ∧ splitinacc (givenInacc (some i)) = .ok out ∧
      ((∃ frac, IsInaccTm inacctm ins frac) → out = (inacctm, ins)) := by
  obtain ⟨i, hmerge⟩ : ∃ i, mergeinacc order (some inacctm) ins = .ok i := by
    simp only [mergeinacc]
    split_ifs
    · exact ⟨_, rfl⟩
    · exact ⟨_, rfl⟩
  obtain ⟨inacctm', ins', hsplit, -⟩ := inacctm_spec order (givenInacc_idem i)
  refine ⟨i, _, hmerge, hsplit, ?_⟩
  rintro ⟨frac, htm⟩
  obtain rfl := Except.ok.inj ((mergeinacc_finite htm).symm.trans hmerge)
  obtain ⟨inacctm'', ins'', frac', hsplit', htm', hticks⟩ := splitinacc_finite htm.finite
  rw [(givenInacc_finite htm.finite).1] at hsplit
  obtain hsame := Except.ok.inj (hsplit.symm.trans hsplit')
  obtain ⟨rfl, rfl⟩ := htm'.unique htm hticks
  exact hsame

/-! `utc_reltime` and `utc_mkreltime` -/

/-- `utc_reltime` succeeds for every time, and `utc_mkreltime` makes the same time, inaccuracy and differential of what it
returns. -/
structure RelTimeExact (order : ByteOrder) (utc : utc_t) : Prop where
  succeeds : ∀ members, utc_comptime ⟨order, .b32⟩ utc = .ok members → ∀ before, ∃ out, utc_reltime order before utc = .ok out
  round_trip : ∀ before timetm tns inacctm ins, utc_reltime order before utc = .ok ((timetm, tns), inacctm, ins) →
    ∃ utc', utc_mkreltime order timetm tns (some inacctm) ins = .ok utc' ∧
      utc_comptime ⟨order, .b32⟩ utc' = utc_comptime ⟨order, .b32⟩ utc

/-- The differential, which a relative time has no place for, is 0. -/
def RelTimeFits (order : ByteOrder) (utc : utc_t) : Prop :=
  ∀ t inacc tdf, utc_comptime ⟨order, .b32⟩ utc = .ok (t, inacc, tdf) → tdf = 0

theorem relTimeExact_iff (order : ByteOrder) (utc : utc_t) : RelTimeExact order utc ↔ RelTimeFits order utc := by
  cases hcomptime : utc_comptime ⟨order, .b32⟩ utc with
  | error e =>
    have hfail (before : tm) : utc_reltime order before utc = .error e := by
      simp only [utc_reltime, hcomptime, bind, Except.bind]
    refine iff_of_true ⟨?_, ?_⟩ ?_
    · simp [hcomptime]
    · simp [hfail]
    · simp [RelTimeFits, hcomptime]
  | ok members =>
    obtain ⟨t, inacc, tdf⟩ := members
    obtain ⟨hgiven, -⟩ := utc_comptime_spec hcomptime
    obtain ⟨inacctm, ins, hsplit, hmerge⟩ := inacctm_spec order hgiven
    have hfits : RelTimeFits order utc ↔ tdf = 0 := by simp [RelTimeFits, hcomptime]
    rw [hfits]
    constructor
    · intro hexact
      obtain ⟨timetm, tns, frac, hcall, htm, hticks, -⟩ := utc_reltime_eq hcomptime hsplit ⟨0, 0, 0, 0, 0, 0, 0, 0, 0⟩
      have hrange := hticks ▸ toInt_inRange t
      obtain ⟨utc', hmake, hreads⟩ := utc_mkreltime_reads htm hrange hmerge
      obtain ⟨utc'', hmake', hsame⟩ := hexact.round_trip _ _ _ _ _ hcall
      obtain rfl := Except.ok.inj (hmake.symm.trans hmake')
      rw [hreads, hcomptime, Except.ok.injEq, Prod.mk.injEq, Prod.mk.injEq] at hsame
      exact hsame.2.2.symm
    · rintro rfl
      refine ⟨fun members hcomptime' before => ?_, fun before timetm' tns' inacctm' ins' hout => ?_⟩
      · obtain ⟨timetm, tns, frac, hcall, -⟩ := utc_reltime_eq hcomptime hsplit before
        exact ⟨_, hcall⟩
      · obtain ⟨timetm, tns, frac, hcall, htm, hticks, -⟩ := utc_reltime_eq hcomptime hsplit before
        have hrange := hticks ▸ toInt_inRange t
        obtain ⟨utc', hmake, hreads⟩ := utc_mkreltime_reads htm hrange hmerge
        rw [hcall, Except.ok.injEq, Prod.mk.injEq, Prod.mk.injEq, Prod.mk.injEq] at hout
        obtain ⟨⟨rfl, rfl⟩, rfl, rfl⟩ := hout
        refine ⟨utc', hmake, ?_⟩
        rw [hreads, hcomptime, hticks, BitVec.ofInt_toInt, hgiven]

/-- The members of a relative time come back from the time that is made of them, with the day of the week of the structure that
receives them and with a finite inaccuracy. -/
def RelTmSurvives (order : ByteOrder) (timetm : tm) (tns : BitVec 32) (inacctm : tm) (ins : BitVec 32) : Prop :=
  ∀ frac, IsRelTm timetm tns frac → ∀ before : tm, ∃ utc inacctm' ins',
    utc_mkreltime order timetm tns (some inacctm) ins = .ok utc ∧
    utc_reltime order before utc = .ok (({ timetm with tm_wday := before.tm_wday }, tns), inacctm', ins') ∧
    ((∃ frac, IsInaccTm inacctm ins frac) → inacctm' = inacctm ∧ ins' = ins)

def RelTmFits (timetm : tm) (tns : BitVec 32) : Prop := ∀ frac, IsRelTm timetm tns frac → InRange (timetm.ticks frac)

theorem relTmSurvives_iff (order : ByteOrder) (timetm : tm) (tns : BitVec 32) (inacctm : tm) (ins : BitVec 32) :
    RelTmSurvives order timetm tns inacctm ins ↔ RelTmFits timetm tns := by
  refine forall_congr' fun frac => forall_congr' fun htm => ?_
  obtain ⟨i, out, hmerge, hsplit, hsame⟩ := mergeinacc_split order inacctm ins
  obtain ⟨outtm, outins⟩ := out
  constructor
  · intro hsurvives
    obtain ⟨utc, inacctm', ins', hmake, hout, -⟩ := hsurvives timetm
    cases hcomptime : utc_comptime ⟨order, .b32⟩ utc with
    | error e => simp [utc_reltime, hcomptime, bind, Except.bind] at hout
    | ok members =>
      obtain ⟨t, inacc, tdf⟩ := members
      obtain ⟨inacctm'', ins'', hsplit', -⟩ := inacctm_spec order (utc_comptime_spec hcomptime).1
      obtain ⟨timetm', tns', frac', hcall, htm', hticks, -⟩ := utc_reltime_eq hcomptime hsplit' timetm
      rw [hcall, Except.ok.injEq, Prod.mk.injEq, Prod.mk.injEq] at hout
      obtain ⟨⟨rfl, rfl⟩, -⟩ := hout
      have hfrac : frac' = frac := by
        have heq := htm'.tns_eq.symm.trans htm.tns_eq
        omega
      have hrange := toInt_inRange t
      rw [← hticks, hfrac] at hrange
      exact hrange
  · intro hrange before
    obtain ⟨utc, hmake, hreads⟩ := utc_mkreltime_reads htm hrange hmerge
    obtain ⟨timetm', tns', frac', hcall, htm', hticks, hwday⟩ := utc_reltime_eq hreads hsplit before
    rw [toInt_ofInt_of_inRange hrange] at hticks
    have hkept : IsRelTm { timetm with tm_wday := before.tm_wday } tns frac := by
      obtain ⟨htns, hfrac, hsec, hmin, hhour, hsign, hdate⟩ := htm
      exact ⟨htns, hfrac, hsec, hmin, hhour, hsign, hdate⟩
    obtain ⟨rfl, rfl⟩ := htm'.unique hkept hticks hwday
    exact ⟨utc, outtm, outins, hmake, hcall, fun hinacc => Prod.mk.inj (hsame hinacc)⟩

/-! The conversions of binary times -/

/-- What the conversions of binary and relative times promise, for all times and all structures that hold one. -/
structure BinaryTimesExact (order : ByteOrder) : Prop where
  bintime : ∀ utc, BinTimeExact order utc
  timespec : ∀ timesp inaccsp tdf, TimespecSurvives order timesp inaccsp tdf
  binreltime : ∀ utc, BinRelTimeExact order utc
  reltimespec : ∀ timesp inaccsp, RelTimespecSurvives order timesp inaccsp
  reltime : ∀ utc, RelTimeExact order utc
  reltm : ∀ timetm tns inacctm ins, RelTmSurvives order timetm tns inacctm ins

/-- For which times and structures the conversions keep the promise. -/
theorem binary_times_exact_iff (order : ByteOrder) (utc : utc_t) (timesp inaccsp : timespec_t) (tdf : ℤ) (timetm : tm)
    (tns : BitVec 32) (inacctm : tm) (ins : BitVec 32) :
    (BinTimeExact order utc ↔ BinTimeFits order utc) ∧
      (TimespecSurvives order timesp inaccsp tdf ↔ TimespecFits timesp) ∧
      (BinRelTimeExact order utc ↔ BinRelTimeFits order utc) ∧
      RelTimespecSurvives order timesp inaccsp ∧
      (RelTimeExact order utc ↔ RelTimeFits order utc) ∧
      (RelTmSurvives order timetm tns inacctm ins ↔ RelTmFits timetm tns) := by
  refine ⟨binTimeExact_iff order utc, timespecSurvives_iff order timesp inaccsp tdf, binRelTimeExact_iff order utc,
    relTimespecSurvives order timesp inaccsp, relTimeExact_iff order utc, ?_⟩
  exact relTmSurvives_iff order timetm tns inacctm ins

def late_1969 : utc_t := ⟨[0xc0, 0xf4, 0x34, 0x13, 0xd2, 0x1d, 0xb2, 0x01, 0, 0, 0, 0, 0, 0, 0, 0x10], rfl⟩

/-- `utc_bintime` returns 2³² - 1 seconds for a time in 1969. -/
theorem late_1969_is_no_bintime : ¬BinaryTimesExact .little := by
  intro hexact
  have hcomptime : utc_comptime ⟨.little, .b32⟩ late_1969 = .ok (.ofInt 64 (122192928000000000 - 5000000), 0, 0) := by decide
  obtain ⟨hlast, -⟩ := (binTimeExact_iff .little late_1969).mp (hexact.bintime late_1969) _ _ _ hcomptime
  exact hlast ⟨by decide, by decide⟩

end dce.dts
