import Dce.Dts.Conservative

namespace dce.dts

open lib

/-- `enum utc_cmptype` -/
inductive utc_cmptype where
  | utc_lessThan
  | utc_equalTo
  | utc_greaterThan
  | utc_indeterminate
  deriving DecidableEq, Repr

/-- `utc_cmpintervaltime`, with a place for the relation. At most one of its tests on the times holds, so the ends that it
stores over the inaccuracies are not used again. -/
def utc_cmpintervaltime (order : ByteOrder) (utc1 utc2 : utc_t) : Except Failure utc_cmptype := do
  let (time1, inacc1, _) ← utc_comptime ⟨order, .b32⟩ utc1
  let (time2, inacc2, _) ← utc_comptime ⟨order, .b32⟩ utc2
  let relation := .utc_indeterminate
  let relation := if IsUTClt time1 time2 ∧ IsUTClt (UTCadd time1 inacc1) (UTCsub time2 inacc2) then .utc_lessThan else relation
  let relation := if IsUTCgt time1 time2 ∧ IsUTCgt (UTCsub time1 inacc1) (UTCadd time2 inacc2) then .utc_greaterThan else relation
  let relation := if time1 = time2 ∧ inacc1 = 0 ∧ inacc2 = 0 then .utc_equalTo else relation
  .ok relation

variable {order : ByteOrder} {a b c : utc_t} {t1 i1 t2 i2 : UTCValue}

/-! The intervals -/

/-- All instants of an interval are before those of another one. -/
def Precedes (s s' : Set ℝ) : Prop := ∀ x ∈ s, ∀ y ∈ s', x < y

def SameInstant (s s' : Set ℝ) : Prop := ∃ x, s = {x} ∧ s' = {x}

def EndsBefore (t1 i1 t2 i2 : UTCValue) : Prop :=
  IsInfiniteInacc i1 = false ∧ IsInfiniteInacc i2 = false ∧ t1.toInt + i1.toNat < t2.toInt - i2.toNat

theorem precedes_iff (ha : Reads order a t1 i1) (hb : Reads order b t2 i2) :
    Precedes (instants order a) (instants order b) ↔ EndsBefore t1 i1 t2 i2 := by
  constructor
  · intro h
    have hfinite1 : IsInfiniteInacc i1 = false := by
      refine Bool.eq_false_iff.mpr fun hinf => ?_
      have hself := h t2.toInt (ha.mem_instants.mpr (.inl hinf)) _ (hb.mem_instants.mpr (within_self t2 i2))
      exact lt_irrefl _ hself
    have hfinite2 : IsInfiniteInacc i2 = false := by
      refine Bool.eq_false_iff.mpr fun hinf => ?_
      have hself := h _ (ha.mem_instants.mpr (within_self t1 i1)) t1.toInt (hb.mem_instants.mpr (.inl hinf))
      exact lt_irrefl _ hself
    refine ⟨hfinite1, hfinite2, ?_⟩
    have hend : Within t1 i1 ((t1.toInt + i1.toNat : ℤ) : ℝ) := .inr (near_intCast_iff.mpr ⟨by omega, le_rfl⟩)
    have hstart : Within t2 i2 ((t2.toInt - i2.toNat : ℤ) : ℝ) := .inr (near_intCast_iff.mpr ⟨le_rfl, by omega⟩)
    exact Int.cast_lt.mp (h _ (ha.mem_instants.mpr hend) _ (hb.mem_instants.mpr hstart))
  · rintro ⟨hfinite1, hfinite2, hlt⟩ x hx y hy
    rw [ha.mem_instants, Within, hfinite1, near_iff] at hx
    rw [hb.mem_instants, Within, hfinite2, near_iff] at hy
    simp only [Bool.false_eq_true, false_or] at hx hy
    have hcast : ((t1.toInt + i1.toNat : ℤ) : ℝ) < ((t2.toInt - i2.toNat : ℤ) : ℝ) := Int.cast_lt.mpr hlt
    push_cast at hcast
    linarith [hx.2, hy.1]

theorem instants_singleton_iff (ha : Reads order a t1 i1) {x : ℝ} :
    instants order a = {x} ↔ i1 = 0 ∧ x = t1.toInt := by
  constructor
  · intro hsame
    have hmem {y : ℝ} (hy : Within t1 i1 y) : y = x := by
      have hin : y ∈ instants order a := ha.mem_instants.mpr hy
      rwa [hsame, Set.mem_singleton_iff] at hin
    have hself := hmem (within_self t1 i1)
    have hend := hmem (y := ((t1.toInt + i1.toNat : ℤ) : ℝ)) (.inr (near_intCast_iff.mpr ⟨by omega, le_rfl⟩))
    have hwidth : ((t1.toInt + i1.toNat : ℤ) : ℝ) = (t1.toInt : ℤ) := hend.trans hself.symm
    have hzero : i1.toNat = 0 := by
      have hint := Int.cast_injective hwidth
      omega
    exact ⟨BitVec.eq_of_toNat_eq (by rw [hzero]; rfl), hself.symm⟩
  · rintro ⟨rfl, rfl⟩
    refine Set.ext fun y => ?_
    have hfinite : IsInfiniteInacc 0 = false := by decide
    have hnat : (BitVec.toNat (0 : UTCValue)) = 0 := rfl
    rw [ha.mem_instants, Set.mem_singleton_iff, Within, hfinite, near_iff, hnat]
    simp only [Bool.false_eq_true, false_or, Nat.cast_zero, sub_zero, add_zero]
    exact ⟨fun h => le_antisymm h.2 h.1, fun h => ⟨h.ge, h.le⟩⟩

theorem sameInstant_iff (ha : Reads order a t1 i1) (hb : Reads order b t2 i2) :
    SameInstant (instants order a) (instants order b) ↔ t1 = t2 ∧ i1 = 0 ∧ i2 = 0 := by
  constructor
  · rintro ⟨x, hx, hx'⟩
    obtain ⟨hi1, hx⟩ := (instants_singleton_iff ha).mp hx
    obtain ⟨hi2, hx'⟩ := (instants_singleton_iff hb).mp hx'
    exact ⟨BitVec.eq_of_toInt_eq (Int.cast_injective (hx.symm.trans hx')), hi1, hi2⟩
  · rintro ⟨rfl, rfl, rfl⟩
    exact ⟨t1.toInt, (instants_singleton_iff ha).mpr ⟨rfl, rfl⟩, (instants_singleton_iff hb).mpr ⟨rfl, rfl⟩⟩

/-! The comparison -/

/-- The test for `utc_lessThan`. -/
def TestsLess (t1 i1 t2 i2 : UTCValue) : Prop := t1.toInt < t2.toInt ∧ (UTCadd t1 i1).toInt < (UTCsub t2 i2).toInt

instance (t1 i1 t2 i2 : UTCValue) : Decidable (TestsLess t1 i1 t2 i2) := inferInstanceAs (Decidable (_ ∧ _))

/-- The ends between two times are in range, and an infinite inaccuracy, which is compared as a number, covers them. -/
def OrderFits (t1 i1 t2 i2 : UTCValue) : Prop :=
  t1.toInt < t2.toInt → t1.toInt + i1.toNat < 2 ^ 63 ∧ -2 ^ 63 ≤ t2.toInt - i2.toNat ∧
    (IsInfiniteInacc i1 = true ∨ IsInfiniteInacc i2 = true → t2.toInt - i2.toNat ≤ t1.toInt + i1.toNat)

theorem testsLess_iff (hle1 : i1.toNat ≤ 2 ^ 48 - 1) (hle2 : i2.toNat ≤ 2 ^ 48 - 1) :
    (TestsLess t1 i1 t2 i2 ↔ EndsBefore t1 i1 t2 i2) ↔ OrderFits t1 i1 t2 i2 := by
  obtain ⟨hlow1, hhigh1⟩ := toInt_inRange t1
  obtain ⟨hlow2, hhigh2⟩ := toInt_inRange t2
  have hadd := toInt_UTCadd t1 hle1
  have hsub := toInt_UTCsub t2 hle2
  rw [TestsLess, EndsBefore, OrderFits, ← Bool.not_eq_true, ← Bool.not_eq_true]
  rw [InRange] at hadd hsub
  generalize (UTCadd t1 i1).toInt = high at *
  generalize (UTCsub t2 i2).toInt = low at *
  by_cases hinf : IsInfiniteInacc i1 = true ∨ IsInfiniteInacc i2 = true
  · have hnot : ¬(¬IsInfiniteInacc i1 = true ∧ ¬IsInfiniteInacc i2 = true ∧ t1.toInt + i1.toNat < t2.toInt - i2.toNat) := by
      rintro ⟨h1, h2, -⟩
      exact hinf.elim h1 h2
    simp only [hnot, iff_false, hinf, true_imp_iff]
    omega
  · obtain ⟨h1, h2⟩ := not_or.mp hinf
    simp only [h1, h2, Bool.false_eq_true, not_false_eq_true, true_and, or_false, false_imp_iff, and_true]
    omega

theorem utc_cmpintervaltime_eq (ha : Reads order a t1 i1) (hb : Reads order b t2 i2) :
    utc_cmpintervaltime order a b = .ok (if t1 = t2 ∧ i1 = 0 ∧ i2 = 0 then .utc_equalTo
      else if TestsLess t2 i2 t1 i1 then .utc_greaterThan else if TestsLess t1 i1 t2 i2 then .utc_lessThan
      else .utc_indeterminate) := by
  obtain ⟨tdf1, ha⟩ := ha
  obtain ⟨tdf2, hb⟩ := hb
  rw [utc_cmpintervaltime, bind_of_ok _ ha]
  dsimp only
  rw [bind_of_ok _ hb]
  dsimp only
  simp only [IsUTClt_iff, IsUTCgt_iff, TestsLess]
  rfl

theorem TestsLess.lt (h : TestsLess t1 i1 t2 i2) : t1.toInt < t2.toInt := h.1

theorem cmp_lessThan_iff (ha : Reads order a t1 i1) (hb : Reads order b t2 i2) :
    utc_cmpintervaltime order a b = .ok .utc_lessThan ↔ TestsLess t1 i1 t2 i2 := by
  rw [utc_cmpintervaltime_eq ha hb, Except.ok.injEq]
  split_ifs with heq hgreater hless
  · exact iff_of_false (by decide) fun h => absurd h.lt (heq.1 ▸ lt_irrefl _)
  · exact iff_of_false (by decide) fun h => absurd h.lt hgreater.lt.le.not_gt
  · exact iff_of_true rfl hless
  · exact iff_of_false (by decide) hless

theorem cmp_greaterThan_iff (ha : Reads order a t1 i1) (hb : Reads order b t2 i2) :
    utc_cmpintervaltime order a b = .ok .utc_greaterThan ↔ TestsLess t2 i2 t1 i1 := by
  rw [utc_cmpintervaltime_eq ha hb, Except.ok.injEq]
  split_ifs with heq hgreater hless
  · exact iff_of_false (by decide) fun h => absurd h.lt (heq.1 ▸ lt_irrefl _)
  · exact iff_of_true rfl hgreater
  · exact iff_of_false (by decide) hgreater
  · exact iff_of_false (by decide) hgreater

theorem cmp_equalTo_iff (ha : Reads order a t1 i1) (hb : Reads order b t2 i2) :
    utc_cmpintervaltime order a b = .ok .utc_equalTo ↔ t1 = t2 ∧ i1 = 0 ∧ i2 = 0 := by
  rw [utc_cmpintervaltime_eq ha hb, Except.ok.injEq]
  split_ifs with heq hgreater hless
  · exact iff_of_true rfl heq
  · exact iff_of_false (by decide) heq
  · exact iff_of_false (by decide) heq
  · exact iff_of_false (by decide) heq

/-! The order -/

/-- The relation between the intervals in the other order. -/
def utc_cmptype.swap : utc_cmptype → utc_cmptype
  | utc_lessThan => utc_greaterThan
  | utc_equalTo => utc_equalTo
  | utc_greaterThan => utc_lessThan
  | utc_indeterminate => utc_indeterminate

/-- The answer is the relation between the two intervals. -/
structure ComparesIntervals (order : ByteOrder) (a b : utc_t) : Prop where
  lessThan : ∀ relation, utc_cmpintervaltime order a b = .ok relation →
    (relation = .utc_lessThan ↔ Precedes (instants order a) (instants order b))
  greaterThan : ∀ relation, utc_cmpintervaltime order a b = .ok relation →
    (relation = .utc_greaterThan ↔ Precedes (instants order b) (instants order a))
  equalTo : ∀ relation, utc_cmpintervaltime order a b = .ok relation →
    (relation = .utc_equalTo ↔ SameInstant (instants order a) (instants order b))

/-- The answers for three values are those of an order of intervals. -/
structure IsIntervalOrder (order : ByteOrder) (a b c : utc_t) : Prop where
  first : ComparesIntervals order a b
  second : ComparesIntervals order b c
  outer : ComparesIntervals order a c
  swaps : ∀ relation, utc_cmpintervaltime order a b = .ok relation → utc_cmpintervaltime order b a = .ok relation.swap
  transitive : utc_cmpintervaltime order a b = .ok .utc_lessThan → utc_cmpintervaltime order b c = .ok .utc_lessThan →
    utc_cmpintervaltime order a c = .ok .utc_lessThan

/-- The ends between the two times are in range, and an infinite inaccuracy covers them as a number. -/
def PairFits (order : ByteOrder) (a b : utc_t) : Prop :=
  ∀ t1 i1 t2 i2, Reads order a t1 i1 → Reads order b t2 i2 → OrderFits t1 i1 t2 i2 ∧ OrderFits t2 i2 t1 i1

theorem reads_of_cmp {relation : utc_cmptype} (hcmp : utc_cmpintervaltime order a b = .ok relation) :
    ∃ t1 i1 t2 i2, Reads order a t1 i1 ∧ Reads order b t2 i2 := by
  cases ha : utc_comptime ⟨order, .b32⟩ a with
  | error e => simp [utc_cmpintervaltime, ha, bind, Except.bind] at hcmp
  | ok members =>
    cases hb : utc_comptime ⟨order, .b32⟩ b with
    | error e => simp [utc_cmpintervaltime, ha, hb, bind, Except.bind] at hcmp
    | ok members' => exact ⟨_, _, _, _, ⟨_, ha⟩, _, hb⟩

theorem comparesIntervals_iff (order : ByteOrder) (a b : utc_t) : ComparesIntervals order a b ↔ PairFits order a b := by
  have hanswer {relation answer : utc_cmptype} (hcmp : utc_cmpintervaltime order a b = .ok relation) :
      relation = answer ↔ utc_cmpintervaltime order a b = .ok answer := by
    rw [hcmp, Except.ok.injEq]
  constructor
  · intro hcompares t1 i1 t2 i2 ha hb
    have hcall := utc_cmpintervaltime_eq ha hb
    have hless := hcompares.lessThan _ hcall
    have hgreater := hcompares.greaterThan _ hcall
    rw [hanswer hcall, cmp_lessThan_iff ha hb, precedes_iff ha hb] at hless
    rw [hanswer hcall, cmp_greaterThan_iff ha hb, precedes_iff hb ha] at hgreater
    exact ⟨(testsLess_iff ha.inacc_le hb.inacc_le).mp hless, (testsLess_iff hb.inacc_le ha.inacc_le).mp hgreater⟩
  · intro hfits
    constructor
    case lessThan =>
      intro relation hcmp
      obtain ⟨t1, i1, t2, i2, ha, hb⟩ := reads_of_cmp hcmp
      rw [hanswer hcmp, cmp_lessThan_iff ha hb, precedes_iff ha hb]
      exact (testsLess_iff ha.inacc_le hb.inacc_le).mpr (hfits _ _ _ _ ha hb).1
    case greaterThan =>
      intro relation hcmp
      obtain ⟨t1, i1, t2, i2, ha, hb⟩ := reads_of_cmp hcmp
      rw [hanswer hcmp, cmp_greaterThan_iff ha hb, precedes_iff hb ha]
      exact (testsLess_iff hb.inacc_le ha.inacc_le).mpr (hfits _ _ _ _ ha hb).2
    case equalTo =>
      intro relation hcmp
      obtain ⟨t1, i1, t2, i2, ha, hb⟩ := reads_of_cmp hcmp
      rw [hanswer hcmp, cmp_equalTo_iff ha hb, sameInstant_iff ha hb]

theorem cmp_swap {relation : utc_cmptype} (hcmp : utc_cmpintervaltime order a b = .ok relation) :
    utc_cmpintervaltime order b a = .ok relation.swap := by
  obtain ⟨t1, i1, t2, i2, ha, hb⟩ := reads_of_cmp hcmp
  cases relation with
  | utc_lessThan => exact (cmp_greaterThan_iff hb ha).mpr ((cmp_lessThan_iff ha hb).mp hcmp)
  | utc_greaterThan => exact (cmp_lessThan_iff hb ha).mpr ((cmp_greaterThan_iff ha hb).mp hcmp)
  | utc_equalTo =>
    obtain ⟨htime, hi1, hi2⟩ := (cmp_equalTo_iff ha hb).mp hcmp
    exact (cmp_equalTo_iff hb ha).mpr ⟨htime.symm, hi2, hi1⟩
  | utc_indeterminate =>
    have hequal : ¬(t1 = t2 ∧ i1 = 0 ∧ i2 = 0) := mt (cmp_equalTo_iff ha hb).mpr (by rw [hcmp]; simp)
    have hless : ¬TestsLess t1 i1 t2 i2 := mt (cmp_lessThan_iff ha hb).mpr (by rw [hcmp]; simp)
    have hgreater : ¬TestsLess t2 i2 t1 i1 := mt (cmp_greaterThan_iff ha hb).mpr (by rw [hcmp]; simp)
    have hequal' : ¬(t2 = t1 ∧ i2 = 0 ∧ i1 = 0) := fun h => hequal ⟨h.1.symm, h.2.2, h.2.1⟩
    rw [utc_cmpintervaltime_eq hb ha, if_neg hequal', if_neg hless, if_neg hgreater]
    rfl

/-- For which values the answers are those of an order of intervals. -/
theorem interval_order_iff (order : ByteOrder) (a b c : utc_t) :
    IsIntervalOrder order a b c ↔ PairFits order a b ∧ PairFits order b c ∧ PairFits order a c := by
  constructor
  · intro h
    exact ⟨(comparesIntervals_iff order a b).mp h.first, (comparesIntervals_iff order b c).mp h.second,
      (comparesIntervals_iff order a c).mp h.outer⟩
  · rintro ⟨hab, hbc, hac⟩
    have hfirst := (comparesIntervals_iff order a b).mpr hab
    have hsecond := (comparesIntervals_iff order b c).mpr hbc
    have houter := (comparesIntervals_iff order a c).mpr hac
    refine ⟨hfirst, hsecond, houter, fun relation => cmp_swap, fun hless hless' => ?_⟩
    obtain ⟨t1, i1, t2, i2, ha, hb⟩ := reads_of_cmp hless
    obtain ⟨_, _, t3, i3, -, hc⟩ := reads_of_cmp hless'
    have hstart := (hfirst.lessThan _ hless).mp rfl
    have hend := (hsecond.lessThan _ hless').mp rfl
    have hmiddle : (t2.toInt : ℝ) ∈ instants order b := hb.mem_instants.mpr (within_self t2 i2)
    have hcall := utc_cmpintervaltime_eq ha hc
    have hrelation := (houter.lessThan _ hcall).mpr fun x hx y hy => (hstart x hx _ hmiddle).trans (hend _ hmiddle y hy)
    rw [hrelation] at hcall
    exact hcall

def unknown_1582 : utc_t := ⟨[0, 0, 0, 0, 0, 0, 0, 0, 0xff, 0xff, 0xff, 0xff, 0xff, 0xff, 0, 0x10], rfl⟩

def exactly_1970 : utc_t := ⟨[0, 0x40, 0x81, 0x13, 0xd2, 0x1d, 0xb2, 0x01, 0, 0, 0, 0, 0, 0, 0, 0x10], rfl⟩

/-- An infinite interval is reported to end before an instant. -/
theorem unknown_before_1970 : ¬∀ a b c, IsIntervalOrder .little a b c := by
  intro horder
  have hfits := ((interval_order_iff .little unknown_1582 exactly_1970 exactly_1970).mp (horder _ _ _)).1
  have ha : Reads .little unknown_1582 0 K_INFINITE_INACC := ⟨0, by decide⟩
  have hb : Reads .little exactly_1970 (.ofInt 64 122192928000000000) 0 := ⟨0, by decide⟩
  have hcovers := ((hfits _ _ _ _ ha hb).1 (by decide)).2.2 (.inl (by decide))
  exact absurd hcovers (by decide)

end dce.dts
