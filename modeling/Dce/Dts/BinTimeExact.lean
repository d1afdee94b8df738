import Dce.Dts.BinTimeCalls

namespace dce.dts

open lib

variable {order : ByteOrder} {utc : utc_t} {t inacc : UTCValue} {tdf : ℤ}

/-! What is made of the results -/

theorem toInt_nsec {n : BitVec 32} {f k : ℤ} (hn : n.toInt = f * 100) (hlow : 0 ≤ f) (hhigh : f < K_100NS_PER_SEC)
    (hk : 0 ≤ k) (hk' : k < 100) : ((n + .ofInt 32 k).sdiv 100).toInt = f := by
  rw [K_100NS_PER_SEC] at hhigh
  have hround : (n + .ofInt 32 k).toInt = f * 100 + k := by
    rw [BitVec.toInt_add, hn, BitVec.toInt_ofInt, Int.bmod_eq_of_le (n := k) (by omega) (by omega),
      Int.bmod_eq_of_le (by omega) (by omega)]
  have hhundred : (100 : BitVec 32).toInt = 100 := by decide
  rw [BitVec.toInt_sdiv, hround, hhundred, Int.tdiv_eq_ediv_of_nonneg (by omega), Int.bmod_eq_of_le (by omega) (by omega)]
  omega

/-- Nanoseconds of a timespec, in 100 ns. -/
structure IsTimespec (timesp : timespec_t) (frac : ℤ) : Prop where
  nsec : timesp.tv_nsec.toInt = frac * 100
  nonneg : 0 ≤ frac
  lt : frac < K_100NS_PER_SEC

theorem isTimespec_of (ticks : ℤ) : IsTimespec (timespecOf ticks) (ticks % K_100NS_PER_SEC) := by
  have hlow := Int.emod_nonneg ticks (b := K_100NS_PER_SEC) (by decide)
  have hhigh := Int.emod_lt_of_pos ticks (b := K_100NS_PER_SEC) (by decide)
  refine ⟨?_, hlow, hhigh⟩
  rw [K_100NS_PER_SEC] at *
  rw [timespecOf, BitVec.toInt_ofInt, Int.bmod_eq_of_le (by rw [K_100NS_PER_SEC]; omega) (by rw [K_100NS_PER_SEC]; omega)]
  rfl

theorem toInt_K : (BitVec.ofInt 32 K_100NS_PER_SEC).toInt = K_100NS_PER_SEC := by decide

variable {timesp : timespec_t} {ticks : ℤ} {frac : ℤ}

theorem timespec_value (hts : IsTimespec timesp frac) :
    UTCiAdd (emul timesp.tv_sec (.ofInt 32 K_100NS_PER_SEC)).value ((timesp.tv_nsec + 50).sdiv 100).toInt =
      .ofInt 64 (timesp.tv_sec.toInt * K_100NS_PER_SEC + frac) := by
  have hnsec := toInt_nsec (k := 50) hts.nsec hts.nonneg hts.lt (by decide) (by decide)
  change ((timesp.tv_nsec + 50).sdiv 100).toInt = frac at hnsec
  rw [hnsec, value_emul, toInt_K, UTCiAdd, ← BitVec.ofInt_add]

theorem twelve_bits (a b : Byte) : ((a &&& 0xf).toNat <<< 8) + b.toNat < 0x1000 ∧ (b.toNat <<< 4) + (a &&& 0xf).toNat < 0x1000 := by
  have ha : (a &&& 0xf).toNat ≤ 15 := by
    rw [BitVec.toNat_and]
    exact Nat.and_le_right
  have hb := b.isLt
  rw [Nat.shiftLeft_eq, Nat.shiftLeft_eq]
  omega

theorem utc_members_tdf {time' inacc' : UTCValue} {atdf : ℤ}
    (hmembers : utc_members ⟨order, .b32⟩ utc = .ok (time', inacc', atdf)) : 0 ≤ atdf ∧ atdf < 0x1000 := by
  have hnat (n : ℕ) (hn : n < 0x1000) (heq : (n : ℤ) = atdf) : 0 ≤ atdf ∧ atdf < 0x1000 := by omega
  simp only [utc_members] at hmembers
  split at hmembers
  case isTrue => simp at hmembers
  case isFalse =>
    cases order with
    | little =>
      simp only [UTCassign, Except.map] at hmembers
      split at hmembers
      · rw [Except.ok.injEq, Prod.mk.injEq, Prod.mk.injEq] at hmembers
        exact hnat _ (twelve_bits _ _).1 hmembers.2.2
      · rw [Except.ok.injEq, Prod.mk.injEq, Prod.mk.injEq] at hmembers
        exact hnat _ (twelve_bits _ _).2 hmembers.2.2
    | big =>
      simp only at hmembers
      split at hmembers
      · rw [Except.ok.injEq, Prod.mk.injEq, Prod.mk.injEq] at hmembers
        exact hnat _ (twelve_bits _ _).2 hmembers.2.2
      · rw [Except.ok.injEq, Prod.mk.injEq, Prod.mk.injEq] at hmembers
        exact hnat _ (twelve_bits _ _).1 hmembers.2.2

theorem utc_comptime_spec (hcomptime : utc_comptime ⟨order, .b32⟩ utc = .ok (t, inacc, tdf)) :
    givenInacc (some inacc) = inacc ∧ IsTdf tdf := by
  simp only [utc_comptime, bind, Except.bind] at hcomptime
  split at hcomptime
  case h_1 => simp at hcomptime
  case h_2 members hmembers =>
    obtain ⟨time', inacc', atdf⟩ := members
    obtain ⟨hlow, hhigh⟩ := utc_members_tdf hmembers
    have htdf : IsTdf ((if 0x7ff < atdf then atdf - 0x1000 else atdf) * SECS_PER_MIN) := by
      refine ⟨_, ?_, ?_, rfl⟩ <;> split_ifs <;> omega
    cases hinf : IsInfiniteInacc inacc' with
    | true =>
      simp only [hinf, if_true, UTCassign, Except.ok.injEq, Prod.mk.injEq] at hcomptime
      obtain ⟨-, rfl, rfl⟩ := hcomptime
      exact ⟨by decide, htdf⟩
    | false =>
      simp only [hinf, Bool.false_eq_true, if_false, Except.ok.injEq, Prod.mk.injEq] at hcomptime
      obtain ⟨-, rfl, rfl⟩ := hcomptime
      refine ⟨?_, htdf⟩
      rw [givenInacc, hinf]
      rfl

theorem utc_mkcomptime_reads (order : ByteOrder) (time inaccvalue : UTCValue) (tdf : ℤ) :
    ∃ utc tdf', utc_mkcomptime ⟨order, .b32⟩ time (some inaccvalue) tdf = .ok utc ∧
      utc_comptime ⟨order, .b32⟩ utc = .ok (time, givenInacc (some inaccvalue), tdf') ∧ (IsTdf tdf → tdf' = tdf) := by
  refine ⟨_, (BitVec.ofInt 12 (tdf.tdiv SECS_PER_MIN)).toInt * SECS_PER_MIN,
    utc_mkcomptime_long32 order time (some inaccvalue) tdf, ?_, IsTdf.eq⟩
  rw [utc_comptime_long32, setWidth_givenInacc]

/-! Inaccuracies -/

def IsFinite (ticks : ℤ) : Prop := 0 ≤ ticks ∧ ticks < 2 ^ 48 - 1

theorem givenInacc_finite (hfinite : IsFinite ticks) :
    givenInacc (some (.ofInt 64 ticks)) = .ofInt 64 ticks ∧ IsInfiniteInacc (.ofInt 64 ticks) = false ∧
      (BitVec.ofInt 64 ticks).toInt = ticks := by
  obtain ⟨hlow, hhigh⟩ := hfinite
  have hnot : IsInfiniteInacc (.ofInt 64 ticks) = false := by
    rw [← Bool.not_eq_true, IsInfiniteInacc_iff, BitVec.toNat_ofInt]
    omega
  refine ⟨?_, hnot, toInt_ofInt_of_inRange ⟨by omega, by omega⟩⟩
  rw [givenInacc, hnot]
  rfl

theorem inacc_cases (hgiven : givenInacc (some inacc) = inacc) :
    inacc = K_INFINITE_INACC ∨ ∃ ticks, IsFinite ticks ∧ inacc = .ofInt 64 ticks := by
  cases hinf : IsInfiniteInacc inacc with
  | true =>
    rw [givenInacc, hinf] at hgiven
    exact .inl hgiven.symm
  | false =>
    rw [← Bool.not_eq_true, IsInfiniteInacc_iff] at hinf
    refine .inr ⟨inacc.toNat, ⟨by omega, by omega⟩, ?_⟩
    rw [BitVec.ofInt_natCast, BitVec.ofNat_toNat, BitVec.setWidth_eq]

theorem splitinaccsp_finite (hfinite : IsFinite ticks) :
    splitinaccsp (.ofInt 64 ticks) = .ok (timespecOf ticks) := by
  obtain ⟨-, hnot, hvalue⟩ := givenInacc_finite hfinite
  obtain ⟨temp, hdiv, hquot, hborrow, hnone, htemp⟩ := seconds_spec (.ofInt 64 ticks)
  obtain ⟨hlow, -⟩ := hfinite
  rw [hvalue] at *
  have hpos : temp.slt 0 = false := by
    refine Bool.eq_false_iff.mpr fun hneg => ?_
    have habs := (hborrow hneg).1
    omega
  rw [hpos] at htemp
  simp only [splitinaccsp, hnot, Bool.false_eq_true, if_false, bind, Except.bind, hdiv]
  rw [lo_eq, hquot, (hnone hpos).2, show temp = _ from htemp, nsec_eq]
  rfl

theorem mergeinaccsp_finite {inaccsp : timespec_t} (hts : IsTimespec inaccsp frac)
    (hsec : 0 ≤ inaccsp.tv_sec.toInt) : mergeinaccsp order (some inaccsp) =
      .ok (.ofInt 64 (inaccsp.tv_sec.toInt * K_100NS_PER_SEC + frac)) := by
  have hneg : inaccsp.tv_sec.slt 0 = false := by
    refine Bool.eq_false_iff.mpr fun h => ?_
    have habs := (slt_zero_iff _).mp h
    omega
  have hnsec := toInt_nsec (k := 99) hts.nsec hts.nonneg hts.lt (by decide) (by decide)
  change ((inaccsp.tv_nsec + 99).sdiv 100).toInt = frac at hnsec
  have hword (w : BitVec 32) (hw : 0 ≤ w.toInt) : (w.toNat : ℤ) = w.toInt := by
    rw [BitVec.toInt_eq_toNat_cond] at hw ⊢
    split_ifs at hw ⊢ <;> omega
  simp only [mergeinaccsp, hneg, Bool.false_eq_true, if_false, hnsec]
  rw [value_uemul, hword _ hsec, hword _ (by decide), toInt_K, UTCiAdd, ← BitVec.ofInt_add]

theorem toInt_timespecOf (hin : InSeconds (-2 ^ 31) (2 ^ 31) ticks) :
    (timespecOf ticks).tv_sec.toInt * K_100NS_PER_SEC + ticks % K_100NS_PER_SEC = ticks := by
  obtain ⟨hlow, hhigh⟩ := hin
  rw [timespecOf, BitVec.toInt_ofInt]
  rw [K_100NS_PER_SEC] at *
  rw [Int.bmod_eq_of_le (by omega) (by omega)]
  omega

theorem IsFinite.inSeconds (hfinite : IsFinite ticks) : InSeconds (-2 ^ 31) (2 ^ 31) ticks := by
  obtain ⟨hlow, hhigh⟩ := hfinite
  rw [InSeconds, K_100NS_PER_SEC]
  omega

theorem inaccsp_spec (order : ByteOrder) (hgiven : givenInacc (some inacc) = inacc) :
    ∃ inaccsp, splitinaccsp inacc = .ok inaccsp ∧ mergeinaccsp order (some inaccsp) = .ok inacc := by
  obtain rfl | ⟨ticks, hfinite, rfl⟩ := inacc_cases hgiven
  · exact ⟨⟨-1, -1⟩, rfl, rfl⟩
  · have hvalue := toInt_timespecOf hfinite.inSeconds
    have hts := isTimespec_of ticks
    refine ⟨timespecOf ticks, splitinaccsp_finite hfinite, ?_⟩
    rw [mergeinaccsp_finite hts, hvalue]
    obtain ⟨hlow, hhigh⟩ := hfinite
    rw [K_100NS_PER_SEC] at hvalue
    omega

/-! Times as timespecs -/

/-- A number of 100 ns is a number of seconds in a range and a part of the next one. -/
def Representable (low high ticks : ℤ) : Prop :=
  ∃ sec frac, low ≤ sec ∧ sec < high ∧ 0 ≤ frac ∧ frac < K_100NS_PER_SEC ∧ ticks = sec * K_100NS_PER_SEC + frac

theorem representable_iff {low high ticks : ℤ} : Representable low high ticks ↔ InSeconds low high ticks := by
  have hlow := Int.emod_nonneg ticks (b := K_100NS_PER_SEC) (by decide)
  have hhigh := Int.emod_lt_of_pos ticks (b := K_100NS_PER_SEC) (by decide)
  rw [InSeconds]
  constructor
  · rintro ⟨sec, frac, hsec, hsec', hfrac, hfrac', rfl⟩
    rw [K_100NS_PER_SEC] at *
    omega
  · rintro ⟨hin, hin'⟩
    refine ⟨ticks / K_100NS_PER_SEC, ticks % K_100NS_PER_SEC, ?_, ?_, hlow, hhigh, ?_⟩ <;> rw [K_100NS_PER_SEC] at * <;> omega

/-- `utc_bintime` succeeds for the times that have a `timespec_t` with unsigned seconds, and `utc_mkbintime` makes the same time,
inaccuracy and differential of what it returns. -/
structure BinTimeExact (order : ByteOrder) (utc : utc_t) : Prop where
  succeeds_iff : ∀ t inacc tdf, utc_comptime ⟨order, .b32⟩ utc = .ok (t, inacc, tdf) →
    ((∃ out, utc_bintime order utc = .ok out) ↔ Representable 0 (2 ^ 32) (unixTicks t))
  round_trip : ∀ timesp inaccsp tdf, utc_bintime order utc = .ok (timesp, inaccsp, tdf) →
    ∃ utc', utc_mkbintime order timesp (some inaccsp) tdf = .ok utc' ∧
      utc_comptime ⟨order, .b32⟩ utc' = utc_comptime ⟨order, .b32⟩ utc

/-- The time is not in the last second before 1970, and not from 2038 on as long as its seconds are unsigned words. -/
def BinTimeFits (order : ByteOrder) (utc : utc_t) : Prop :=
  ∀ t inacc tdf, utc_comptime ⟨order, .b32⟩ utc = .ok (t, inacc, tdf) →
    ¬(-K_100NS_PER_SEC < unixTicks t ∧ unixTicks t < 0) ∧ ¬InSeconds (2 ^ 31) (2 ^ 32) (unixTicks t)

/-- The same for `utc_binreltime` and `utc_mkbinreltime`, with signed seconds. -/
structure BinRelTimeExact (order : ByteOrder) (utc : utc_t) : Prop where
  succeeds_iff : ∀ t inacc tdf, utc_comptime ⟨order, .b32⟩ utc = .ok (t, inacc, tdf) →
    ((∃ out, utc_binreltime order utc = .ok out) ↔ Representable (-2 ^ 31) (2 ^ 31) t.toInt)
  round_trip : ∀ timesp inaccsp, utc_binreltime order utc = .ok (timesp, inaccsp) →
    ∃ utc', utc_mkbinreltime order timesp (some inaccsp) = .ok utc' ∧
      utc_comptime ⟨order, .b32⟩ utc' = utc_comptime ⟨order, .b32⟩ utc

/-- No borrow is lost, and the differential, which a relative time has no place for, is 0. -/
def BinRelTimeFits (order : ByteOrder) (utc : utc_t) : Prop :=
  ∀ t inacc tdf, utc_comptime ⟨order, .b32⟩ utc = .ok (t, inacc, tdf) →
    ¬BorrowLost t ∧ (InSeconds (-2 ^ 31) (2 ^ 31) t.toInt → tdf = 0)

theorem UTCadd_inj {a b c : UTCValue} (hsame : UTCadd a c = UTCadd b c) : a = b := (BitVec.add_left_inj c).mp hsame

theorem diff_ticks (t : UTCValue) : UTCadd (.ofInt 64 (unixTicks t)) diff_UNIX_UTC_ticks = t := by
  have hzero : diff_UTC_UNIX_ticks + diff_UNIX_UTC_ticks = 0 := by decide
  rw [unixTicks, BitVec.ofInt_add, BitVec.ofInt_toInt, BitVec.ofInt_toInt, UTCadd, BitVec.add_assoc, hzero]
  exact BitVec.add_zero t

theorem utc_mkbintime_reads (hts : IsTimespec timesp frac) {inaccsp : Option timespec_t}
    {i : UTCValue} (hinacc : mergeinaccsp order inaccsp = .ok i) (tdf : ℤ) :
    ∃ utc tdf', utc_mkbintime order timesp inaccsp tdf = .ok utc ∧ utc_comptime ⟨order, .b32⟩ utc =
      .ok (UTCadd (.ofInt 64 (timesp.tv_sec.toInt * K_100NS_PER_SEC + frac)) diff_UNIX_UTC_ticks, givenInacc (some i), tdf') ∧
      (IsTdf tdf → tdf' = tdf) := by
  simp only [utc_mkbintime, hinacc, bind, Except.bind, timespec_value hts]
  exact utc_mkcomptime_reads ..

theorem utc_mkbinreltime_reads (hts : IsTimespec timesp frac)
    {inaccsp : Option timespec_t} {i : UTCValue} (hinacc : mergeinaccsp order inaccsp = .ok i) :
    ∃ utc, utc_mkbinreltime order timesp inaccsp = .ok utc ∧ utc_comptime ⟨order, .b32⟩ utc =
      .ok (.ofInt 64 (timesp.tv_sec.toInt * K_100NS_PER_SEC + frac), givenInacc (some i), 0) := by
  simp only [utc_mkbinreltime, hinacc, bind, Except.bind, timespec_value hts]
  obtain ⟨utc, tdf', hmake, hreads, htdf⟩ := utc_mkcomptime_reads order
    (.ofInt 64 (timesp.tv_sec.toInt * K_100NS_PER_SEC + frac)) i 0
  obtain rfl := htdf ⟨0, by decide, by decide, by decide⟩
  exact ⟨utc, hmake, hreads⟩

theorem toInt_timespecOf_late (hlate : InSeconds (2 ^ 31) (2 ^ 32) ticks) :
    (timespecOf ticks).tv_sec.toInt * K_100NS_PER_SEC + ticks % K_100NS_PER_SEC = ticks - 2 ^ 32 * K_100NS_PER_SEC := by
  obtain ⟨hlow, hhigh⟩ := hlate
  rw [timespecOf, BitVec.toInt_ofInt, Int.bmod_def]
  rw [K_100NS_PER_SEC] at *
  split_ifs <;> omega

theorem binTimeExact_iff (order : ByteOrder) (utc : utc_t) : BinTimeExact order utc ↔ BinTimeFits order utc := by
  cases hcomptime : utc_comptime ⟨order, .b32⟩ utc with
  | error e =>
    have hfail : utc_bintime order utc = .error e := by simp only [utc_bintime, hcomptime, bind, Except.bind]
    refine iff_of_true ⟨?_, ?_⟩ ?_
    · simp [hcomptime]
    · simp [hfail]
    · simp [BinTimeFits, hcomptime]
  | ok members =>
    obtain ⟨t, inacc, tdf⟩ := members
    obtain ⟨hgiven, htdf⟩ := utc_comptime_spec hcomptime
    obtain ⟨inaccsp, hsplit, hmerge⟩ := inaccsp_spec order hgiven
    have hcall := utc_bintime_eq hcomptime hsplit
    obtain ⟨utc', tdf', hmake, hreads, htdf'⟩ := utc_mkbintime_reads (isTimespec_of (unixTicks t)) hmerge tdf
    obtain rfl := htdf' htdf
    rw [hgiven] at hreads
    have hfits : BinTimeFits order utc ↔
        ¬(-K_100NS_PER_SEC < unixTicks t ∧ unixTicks t < 0) ∧ ¬InSeconds (2 ^ 31) (2 ^ 32) (unixTicks t) := by
      simp [BinTimeFits, hcomptime]
    have hsucceeds : (∃ out, utc_bintime order utc = .ok out) ↔
        InSeconds (-1) (2 ^ 32) (unixTicks t) ∧ unixTicks t ≠ -K_100NS_PER_SEC := by
      rw [hcall]
      split_ifs with hin
      · exact iff_of_true ⟨_, rfl⟩ hin
      · exact iff_of_false (by simp) hin
    rw [hfits]
    constructor
    · intro hexact
      have hiff := (hexact.succeeds_iff t inacc tdf' hcomptime).symm.trans hsucceeds
      rw [representable_iff] at hiff
      refine ⟨fun hlast => ?_, fun hlate => ?_⟩
      · rw [InSeconds, InSeconds, K_100NS_PER_SEC] at hiff
        rw [K_100NS_PER_SEC] at hlast
        omega
      · have hin : InSeconds (-1) (2 ^ 32) (unixTicks t) ∧ unixTicks t ≠ -K_100NS_PER_SEC := by
          rw [InSeconds, K_100NS_PER_SEC] at *
          omega
        rw [if_pos hin] at hcall
        obtain ⟨utc'', hmake', hsame⟩ := hexact.round_trip _ _ _ hcall
        obtain rfl := Except.ok.inj (hmake.symm.trans hmake')
        rw [hreads, hcomptime, Except.ok.injEq, Prod.mk.injEq] at hsame
        rw [toInt_timespecOf_late hlate] at hsame
        have hdiffer := UTCadd_inj (hsame.1.trans (diff_ticks t).symm)
        have hmod := congrArg BitVec.toNat hdiffer
        rw [BitVec.toNat_ofInt, BitVec.toNat_ofInt] at hmod
        rw [InSeconds] at hlate
        rw [K_100NS_PER_SEC] at *
        omega
    · rintro ⟨hnotlast, hnotlate⟩
      refine ⟨fun t' inacc' tdf'' hcomptime' => ?_, fun timesp inaccsp' tdf'' hout => ?_⟩
      · rw [hcomptime, Except.ok.injEq, Prod.mk.injEq] at hcomptime'
        obtain ⟨rfl, -⟩ := hcomptime'
        rw [hsucceeds, representable_iff, InSeconds, InSeconds]
        rw [InSeconds] at hnotlate
        rw [K_100NS_PER_SEC] at *
        omega
      · rw [hcall] at hout
        split_ifs at hout with hin
        simp only [Except.ok.injEq, Prod.mk.injEq] at hout
        obtain ⟨rfl, rfl, rfl⟩ := hout
        have hsmall : InSeconds (-2 ^ 31) (2 ^ 31) (unixTicks t) := by
          rw [InSeconds, K_100NS_PER_SEC] at *
          omega
        refine ⟨utc', hmake, ?_⟩
        rw [hreads, hcomptime, toInt_timespecOf hsmall, diff_ticks]

theorem binRelTimeExact_iff (order : ByteOrder) (utc : utc_t) : BinRelTimeExact order utc ↔ BinRelTimeFits order utc := by
  cases hcomptime : utc_comptime ⟨order, .b32⟩ utc with
  | error e =>
    have hfail : utc_binreltime order utc = .error e := by simp only [utc_binreltime, hcomptime, bind, Except.bind]
    refine iff_of_true ⟨?_, ?_⟩ ?_
    · simp [hcomptime]
    · simp [hfail]
    · simp [BinRelTimeFits, hcomptime]
  | ok members =>
    obtain ⟨t, inacc, tdf⟩ := members
    obtain ⟨hgiven, -⟩ := utc_comptime_spec hcomptime
    obtain ⟨inaccsp, hsplit, hmerge⟩ := inaccsp_spec order hgiven
    have hcall := utc_binreltime_eq hcomptime hsplit
    obtain ⟨utc', hmake, hreads⟩ := utc_mkbinreltime_reads (isTimespec_of t.toInt) hmerge
    rw [hgiven] at hreads
    have hfits : BinRelTimeFits order utc ↔ ¬BorrowLost t ∧ (InSeconds (-2 ^ 31) (2 ^ 31) t.toInt → tdf = 0) := by
      simp [BinRelTimeFits, hcomptime]
    have hsucceeds : (∃ out, utc_binreltime order utc = .ok out) ↔
        InSeconds (-2 ^ 31) (2 ^ 31) t.toInt ∨ BorrowLost t := by
      rw [hcall]
      split_ifs with hin
      · exact iff_of_true ⟨_, rfl⟩ hin
      · exact iff_of_false (by simp) hin
    have hapart : BorrowLost t → ¬InSeconds (-2 ^ 31) (2 ^ 31) t.toInt := by
      rw [BorrowLost, InSeconds, K_100NS_PER_SEC]
      omega
    rw [hfits]
    constructor
    · intro hexact
      have hiff := (hexact.succeeds_iff t inacc tdf hcomptime).symm.trans hsucceeds
      rw [representable_iff] at hiff
      refine ⟨fun hlost => hapart hlost (hiff.mpr (.inr hlost)), fun hin => ?_⟩
      rw [if_pos (.inl hin)] at hcall
      obtain ⟨utc'', hmake', hsame⟩ := hexact.round_trip _ _ hcall
      obtain rfl := Except.ok.inj (hmake.symm.trans hmake')
      rw [hreads, hcomptime, Except.ok.injEq, Prod.mk.injEq, Prod.mk.injEq] at hsame
      exact hsame.2.2.symm
    · rintro ⟨hkept, htdf⟩
      refine ⟨fun t' inacc' tdf'' hcomptime' => ?_, fun timesp inaccsp' hout => ?_⟩
      · rw [hcomptime, Except.ok.injEq, Prod.mk.injEq] at hcomptime'
        obtain ⟨rfl, -⟩ := hcomptime'
        rw [hsucceeds, representable_iff, or_iff_left hkept]
      · rw [hcall] at hout
        split_ifs at hout with hin
        simp only [Except.ok.injEq, Prod.mk.injEq] at hout
        obtain ⟨rfl, rfl⟩ := hout
        have hsmall := hin.resolve_right hkept
        refine ⟨utc', hmake, ?_⟩
        rw [hreads, hcomptime, toInt_timespecOf hsmall, BitVec.ofInt_toInt, htdf hsmall]

/-! Timespecs as times -/

def IsInaccuracy (inaccsp : timespec_t) : Prop :=
  0 ≤ inaccsp.tv_sec.toInt ∧ ∃ frac, IsTimespec inaccsp frac ∧ IsFinite (inaccsp.tv_sec.toInt * K_100NS_PER_SEC + frac)

/-- A timespec of whole 100 ns comes back from the time that is made of it, with a finite inaccuracy and a differential. -/
def TimespecSurvives (order : ByteOrder) (timesp inaccsp : timespec_t) (tdf : ℤ) : Prop :=
  ∀ frac, IsTimespec timesp frac → ∃ utc inaccsp' tdf', utc_mkbintime order timesp (some inaccsp) tdf = .ok utc ∧
    utc_bintime order utc = .ok (timesp, inaccsp', tdf') ∧ (IsInaccuracy inaccsp → inaccsp' = inaccsp) ∧ (IsTdf tdf → tdf' = tdf)

/-- The seconds are no negative word, or they are -1 and not all of it. -/
def TimespecFits (timesp : timespec_t) : Prop :=
  ∀ frac, IsTimespec timesp frac → 0 ≤ timesp.tv_sec.toInt ∨ (timesp.tv_sec.toInt = -1 ∧ 0 < frac)

def RelTimespecSurvives (order : ByteOrder) (timesp inaccsp : timespec_t) : Prop :=
  ∀ frac, IsTimespec timesp frac → ∃ utc inaccsp', utc_mkbinreltime order timesp (some inaccsp) = .ok utc ∧
    utc_binreltime order utc = .ok (timesp, inaccsp') ∧ (IsInaccuracy inaccsp → inaccsp' = inaccsp)

theorem timespecOf_value (hts : IsTimespec timesp frac) :
    timespecOf (timesp.tv_sec.toInt * K_100NS_PER_SEC + frac) = timesp := by
  obtain ⟨hnsec, hlow, hhigh⟩ := hts
  have hdiv : (timesp.tv_sec.toInt * K_100NS_PER_SEC + frac) / K_100NS_PER_SEC = timesp.tv_sec.toInt := by
    rw [K_100NS_PER_SEC] at *
    omega
  have hmod : (timesp.tv_sec.toInt * K_100NS_PER_SEC + frac) % K_100NS_PER_SEC = frac := by
    rw [K_100NS_PER_SEC] at *
    omega
  rw [timespecOf, hdiv, hmod, BitVec.ofInt_toInt, ← hnsec, BitVec.ofInt_toInt]

theorem givenInacc_idem (i : UTCValue) : givenInacc (some (givenInacc (some i))) = givenInacc (some i) := by
  cases hinf : IsInfiniteInacc i with
  | true =>
    rw [givenInacc, givenInacc, hinf]
    rfl
  | false =>
    rw [givenInacc, givenInacc, hinf]
    simp [hinf]

theorem mergeinaccsp_split (order : ByteOrder) (inaccsp : timespec_t) :
    ∃ i inaccsp', mergeinaccsp order (some inaccsp) = .ok i ∧ splitinaccsp (givenInacc (some i)) = .ok inaccsp' ∧
      (IsInaccuracy inaccsp → inaccsp' = inaccsp) := by
  obtain ⟨i, hmerge⟩ : ∃ i, mergeinaccsp order (some inaccsp) = .ok i := by
    simp only [mergeinaccsp]
    split_ifs
    · exact ⟨_, rfl⟩
    · exact ⟨_, rfl⟩
  obtain ⟨inaccsp', hsplit, -⟩ := inaccsp_spec order (givenInacc_idem i)
  refine ⟨i, inaccsp', hmerge, hsplit, ?_⟩
  rintro ⟨hsec, frac, hts, hfinite⟩
  obtain rfl := Except.ok.inj ((mergeinaccsp_finite hts hsec).symm.trans hmerge)
  rw [(givenInacc_finite hfinite).1, splitinaccsp_finite hfinite, timespecOf_value hts] at hsplit
  exact (Except.ok.inj hsplit).symm

theorem timespecSurvives_iff (order : ByteOrder) (timesp inaccsp : timespec_t) (tdf : ℤ) :
    TimespecSurvives order timesp inaccsp tdf ↔ TimespecFits timesp := by
  refine forall_congr' fun frac => forall_congr' fun hts => ?_
  obtain ⟨i, inaccsp', hmerge, hsplit, hsame⟩ := mergeinaccsp_split order inaccsp
  obtain ⟨utc, tdf', hmake, hreads, htdf⟩ := utc_mkbintime_reads hts hmerge tdf
  have hvalue := timespecOf_value hts
  have hcall := utc_bintime_eq hreads hsplit
  have hlow := timesp.tv_sec.le_toInt
  have hhigh := timesp.tv_sec.toInt_lt
  have hunix : unixTicks (UTCadd (.ofInt 64 (timesp.tv_sec.toInt * K_100NS_PER_SEC + frac)) diff_UNIX_UTC_ticks) =
      timesp.tv_sec.toInt * K_100NS_PER_SEC + frac := by
    have hdiff : diff_UNIX_UTC_ticks.toInt = 122192928000000000 := by decide
    have hdiff' : diff_UTC_UNIX_ticks.toInt = -122192928000000000 := by decide
    obtain ⟨-, hnonneg, hlt⟩ := hts
    rw [K_100NS_PER_SEC] at *
    rw [unixTicks, UTCadd, BitVec.toInt_add, toInt_ofInt_of_inRange ⟨by omega, by omega⟩, hdiff, hdiff',
      Int.bmod_eq_of_le (by omega) (by omega)]
    omega
  rw [hunix, hvalue] at hcall
  obtain ⟨-, hnonneg, hlt⟩ := hts
  have hin : InSeconds (-1) (2 ^ 32) (timesp.tv_sec.toInt * K_100NS_PER_SEC + frac) ∧
      timesp.tv_sec.toInt * K_100NS_PER_SEC + frac ≠ -K_100NS_PER_SEC ↔
        0 ≤ timesp.tv_sec.toInt ∨ (timesp.tv_sec.toInt = -1 ∧ 0 < frac) := by
    rw [InSeconds, K_100NS_PER_SEC]
    rw [K_100NS_PER_SEC] at hlt
    omega
  rw [← hin]
  constructor
  · rintro ⟨utc', inaccsp'', tdf'', hmake', hout, -⟩
    obtain rfl := Except.ok.inj (hmake.symm.trans hmake')
    rw [hcall] at hout
    split_ifs at hout with hok
    exact hok
  · intro hok
    rw [if_pos hok] at hcall
    exact ⟨utc, inaccsp', tdf', hmake, hcall, hsame, htdf⟩

theorem relTimespecSurvives (order : ByteOrder) (timesp inaccsp : timespec_t) :
    RelTimespecSurvives order timesp inaccsp := by
  intro frac hts
  obtain ⟨i, inaccsp', hmerge, hsplit, hsame⟩ := mergeinaccsp_split order inaccsp
  obtain ⟨utc, hmake, hreads⟩ := utc_mkbinreltime_reads hts hmerge
  have hvalue := timespecOf_value hts
  have hcall := utc_binreltime_eq hreads hsplit
  have hlow := timesp.tv_sec.le_toInt
  have hhigh := timesp.tv_sec.toInt_lt
  obtain ⟨-, hnonneg, hlt⟩ := hts
  have hin : InSeconds (-2 ^ 31) (2 ^ 31) (timesp.tv_sec.toInt * K_100NS_PER_SEC + frac) := by
    rw [InSeconds]
    rw [K_100NS_PER_SEC] at *
    omega
  have hrange : InRange (timesp.tv_sec.toInt * K_100NS_PER_SEC + frac) := by
    rw [InRange]
    rw [K_100NS_PER_SEC] at *
    omega
  rw [toInt_ofInt_of_inRange hrange, if_pos (.inl hin), hvalue] at hcall
  exact ⟨utc, inaccsp', hmake, hcall, hsame⟩

end dce.dts
