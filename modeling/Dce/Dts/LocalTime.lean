import Dce.Dts.MergeTime

namespace dce.dts

open lib

/-- `struct ttinfo`, whose `tt_isdst` is 0 or 1 in every table that is loaded. -/
structure ttinfo where
  tt_gmtoff : BitVec 32
  tt_isdst : Bool
  deriving DecidableEq, Repr

/-- `struct state`: the times of the transitions and the types that start there. -/
structure state where
  ats : List (BitVec 32)
  types : List ℕ
  ttis : List ttinfo
  length_eq : types.length = ats.length
  types_lt : ∀ τ ∈ types, τ < ttis.length
  ttis_pos : 0 < ttis.length

namespace state

variable (s : state)

def timecnt : ℕ := s.ats.length

def transition (i : ℕ) : ℤ := (s.ats.getD i 0).toInt

def typeOf (i : ℕ) : ℕ := s.types.getD i 0

def info (τ : ℕ) : ttinfo := s.ttis.getD τ ⟨0, false⟩

def gmtoff (τ : ℕ) : ℤ := (s.info τ).tt_gmtoff.toInt

def isdst (τ : ℕ) : Bool := (s.info τ).tt_isdst

/-- The time of a transition on a clock of a type. -/
def localTransition (i τ : ℕ) : ℤ := (s.ats.getD i 0 + (s.info τ).tt_gmtoff).toInt

end state

/-- The loop for the first rule that claims standard time, with the number of transitions as its bound. -/
def standardLoop (s : state) (i : ℕ) : ℕ → Except Failure ℕ
  | 0 =>
    match s.ttis[i]? with
    | none => .error .undefined
    | some ttis => .ok (if ttis.tt_isdst then 0 else i)
  | n + 1 =>
    match s.ttis[i]? with
    | none => .error .undefined
    | some ttis => if ttis.tt_isdst then (if i + 1 ≥ s.timecnt then .ok 0 else standardLoop s (i + 1) n) else .ok i

/-- The loop over the transitions from `i` on, which stops at the first one for which `cond` holds. -/
def transitionLoop (cond : ℕ → Bool) (i : ℕ) : ℕ → ℕ
  | 0 => i
  | n + 1 => if cond i then i else transitionLoop cond (i + 1) n

def find_ttis_given_utc (s : state) (timevalue : UTCValue) : Except Failure ℕ := do
  let (seconds, _) ← UTCiDiv (UTCadd timevalue diff_UTC_UNIX_ticks) K_100NS_PER_SEC
  if s.timecnt = 0 ∨ IsUTClt seconds min_UNIX_sgn_time ∨ IsUTCgt seconds max_UNIX_sgn_time ∨
      seconds.lo.toInt < s.transition 0 then
    standardLoop s 0 s.timecnt
  else
    let i := transitionLoop (fun i => decide (seconds.lo.toInt < s.transition i) && !IsUTCgt seconds max_UNIX_sgn_time &&
      !IsUTClt seconds min_UNIX_sgn_time) 1 (s.timecnt - 1)
    .ok (s.typeOf (i - 1))

/-- The loop of `find_ttis_given_local`, which also asks for the daylight saving time if the caller asserts it. Only then is
the type of the last transition taken at its end. -/
def localLoop (s : state) (secTemp : UTCValue) (asserted : Option Bool) (i ttis : ℕ) : ℕ → Except Failure ℕ
  | 0 => .ok ttis
  | n + 1 =>
    let ttis := s.typeOf (i - 1)
    if secTemp.lo.toInt < s.localTransition (i - 1) ttis then .error .invalid
    else if secTemp.lo.toInt < s.localTransition i ttis ∧ IsUTClt secTemp max_UNIX_sgn_time ∧
        asserted.all (· == s.isdst ttis) then .ok ttis
    else localLoop s secTemp asserted (i + 1) (if asserted.isSome then s.typeOf i else ttis) n

/-- A local time is not before the first transition nor out of the table. -/
def inTable (s : state) (secTemp : UTCValue) : Bool :=
  decide (s.timecnt ≠ 0) && !IsUTClt secTemp min_UNIX_sgn_time && !IsUTCgt secTemp max_UNIX_sgn_time &&
    decide (secTemp.lo.toInt ≥ s.localTransition 0 (s.typeOf 0))

def find_ttis_given_local (s : state) (second : UTCValue) (isdst : BitVec 32) : Except Failure ℕ :=
  if isdst.slt 0 then
    if inTable s second then localLoop s second none 1 (s.typeOf 0) (s.timecnt - 1) else .ok (s.typeOf 0)
  else do
    let isdst := decide (isdst.toInt > 0)
    let ttis ←
      if inTable s second then localLoop s second (some isdst) 1 (s.typeOf 0) (s.timecnt - 1)
      else standardLoop s 0 s.timecnt
    if s.isdst ttis ≠ isdst then .error .invalid else .ok ttis

section

variable (order : ByteOrder) (s : state)

/-- `utc_localtime`, with a place for each of its results. -/
def utc_localtime (utc : utc_t) : Except Failure ((tm × BitVec 32) × tm × BitVec 32) := do
  let (timevalue, inaccvalue, _) ← utc_comptime ⟨order, .b32⟩ utc
  let inacctm ← splitinacc inaccvalue
  let ttis ← find_ttis_given_utc s timevalue
  let (atimetm, tns) ← splittime timevalue (s.gmtoff ttis)
  .ok (({ atimetm with tm_isdst := if s.isdst ttis then 1 else 0 }, tns), inacctm)

def utc_mklocaltime (timetm : tm) (tns : BitVec 32) (inacctm : Option tm) (ins : BitVec 32) : Except Failure utc_t := do
  let inaccvalue ← mergeinacc order inacctm ins
  let (timevalue, secTemp) ← mergetime timetm tns
  let ttis ← find_ttis_given_local s secTemp timetm.tm_isdst
  let utcTemp2 := (emul (.ofInt 32 (s.gmtoff ttis)) (.ofInt 32 K_100NS_PER_SEC)).value
  utc_mkcomptime ⟨order, .b32⟩ (UTCsub timevalue utcTemp2) (some inaccvalue) (s.gmtoff ttis)

end

/-! Which type a time has -/

variable {s : state} {t : UTCValue} {τ : ℕ}

def FirstStandard (s : state) (τ : ℕ) : Prop :=
  τ < s.ttis.length ∧ s.isdst τ = false ∧ ∀ i < τ, s.isdst i = true

/-- The type of the last transition not later than a time, or the first standard one before the first transition. -/
def TypeAt (s : state) (ticks : ℤ) (τ : ℕ) : Prop :=
  (∃ k < s.timecnt, s.transition k * K_100NS_PER_SEC ≤ ticks ∧
    (∀ i, k < i → i < s.timecnt → ticks < s.transition i * K_100NS_PER_SEC) ∧ τ = s.typeOf k) ∨
  ((∀ i < s.timecnt, ticks < s.transition i * K_100NS_PER_SEC) ∧ FirstStandard s τ)

def localRoundTrip (order : ByteOrder) (s : state) (utc : utc_t) : Except Failure (UTCValue × UTCValue) := do
  let ((timetm, tns), inacctm, ins) ← utc_localtime order s utc
  let utc' ← utc_mklocaltime order s timetm tns (some inacctm) ins
  timeOf order utc'

/-- What the conversions to and from local time promise. -/
def LocalTimeExact (order : ByteOrder) (s : state) (utc : utc_t) : Prop :=
  ∀ t inacc tdf, utc_comptime ⟨order, .b32⟩ utc = .ok (t, inacc, tdf) →
    (∃ τ, find_ttis_given_utc s t = .ok τ ∧ TypeAt s (unixTicks t) τ) ∧
    localRoundTrip order s utc = timeOf order utc

/-- The transitions follow each other by more than any offset. -/
structure WellSpaced (s : state) : Prop where
  increasing : ∀ i j, i < j → j < s.timecnt → s.transition i < s.transition j
  offsets : ∀ τ < s.ttis.length, ∀ i, i + 1 < s.timecnt → |s.gmtoff τ| < s.transition (i + 1) - s.transition i

/-- A table from which a local time tells its type: it has a standard one that the search finds, two offsets differ by less
than the transitions, and a transition that sets the clock back changes the daylight saving time. -/
structure ZoneKept (s : state) (σ : ℕ) : Prop where
  increasing : ∀ i j, i < j → j < s.timecnt → s.transition i < s.transition j
  standard : FirstStandard s σ
  found : σ = 0 ∨ σ < s.timecnt
  fits : ∀ i < s.timecnt, ∀ τ < s.ttis.length, -2 ^ 31 ≤ s.transition i + s.gmtoff τ ∧ s.transition i + s.gmtoff τ < 2 ^ 31
  close : ∀ i < s.timecnt, ∀ j < s.timecnt, ∀ k, k + 1 < s.timecnt →
    s.gmtoff (s.typeOf i) - s.gmtoff (s.typeOf j) < s.transition (k + 1) - s.transition k
  setBack : ∀ i, i + 1 < s.timecnt → s.gmtoff (s.typeOf (i + 1)) < s.gmtoff (s.typeOf i) →
    s.isdst (s.typeOf (i + 1)) ≠ s.isdst (s.typeOf i)
  first : 0 < s.timecnt → s.gmtoff σ ≤ s.gmtoff (s.typeOf 0)

/-- A time is not in the second before a transition up to 1970, which the division rounds up. -/
def WholeSecond (s : state) (ticks : ℤ) : Prop :=
  ∀ i < s.timecnt, ticks < s.transition i * K_100NS_PER_SEC → s.transition i ≤ 0 → ticks ≤ (s.transition i - 1) * K_100NS_PER_SEC

/-- The type in force: after the seconds since 1970 that a signed word holds it is always standard time. -/
def InForce (s : state) (ticks : ℤ) (τ : ℕ) : Prop :=
  if ticks < 2 ^ 31 * K_100NS_PER_SEC then TypeAt s ticks τ else FirstStandard s τ

/-- From the first transition on the local time is in the signed seconds when the time is. -/
def LocalSeconds (s : state) (ticks : ℤ) (τ : ℕ) : Prop :=
  0 < s.timecnt → s.transition 0 * K_100NS_PER_SEC ≤ ticks →
    if ticks < 2 ^ 31 * K_100NS_PER_SEC then
      -2 ^ 31 ≤ ticks / K_100NS_PER_SEC + s.gmtoff τ ∧ ticks / K_100NS_PER_SEC + s.gmtoff τ < 2 ^ 31 - 1
    else 2 ^ 31 ≤ ticks / K_100NS_PER_SEC + s.gmtoff τ

section

variable {s : state} {t : UTCValue} {σ τ : ℕ}

theorem FirstStandard.unique (hσ : FirstStandard s σ) (hτ : FirstStandard s τ) : σ = τ := by
  obtain ⟨-, hσ', hbefore⟩ := hσ
  obtain ⟨-, hτ', hbefore'⟩ := hτ
  obtain hlt | heq | hlt := lt_trichotomy σ τ
  · exact absurd (hbefore' σ hlt) (by simp [hσ'])
  · exact heq
  · exact absurd (hbefore τ hlt) (by simp [hτ'])

theorem ttis_get (hτ : τ < s.ttis.length) : s.ttis[τ]? = some (s.info τ) := by
  rw [state.info, List.getD_eq_getElem?_getD, List.getElem?_eq_getElem hτ, Option.getD_some]

theorem standardLoop_spec (hσ : FirstStandard s σ) (hfound : σ = 0 ∨ σ < s.timecnt) :
    ∀ n i, i ≤ σ → i + n = s.timecnt → standardLoop s i n = .ok σ := by
  obtain ⟨hlength, hstandard, hbefore⟩ := hσ
  intro n
  induction n with
  | zero =>
    intro i hi hcount
    have hlast : i = σ := by omega
    have hisdst : (s.info i).tt_isdst = false := hlast ▸ hstandard
    simp only [standardLoop, ttis_get (hlast ▸ hlength), hisdst]
    simp [hlast]
  | succ n ih =>
    intro i hi hcount
    obtain heq | hlt := hi.eq_or_lt
    · have hisdst : (s.info i).tt_isdst = false := heq ▸ hstandard
      simp only [standardLoop, ttis_get (heq ▸ hlength), hisdst]
      simp [heq]
    · have hisdst : (s.info i).tt_isdst = true := hbefore i hlt
      simp only [standardLoop, ttis_get (hlt.trans hlength), hisdst, if_true]
      rw [if_neg (by omega)]
      exact ih (i + 1) hlt (by omega)

theorem transitionLoop_eq {cond : ℕ → Bool} {k : ℕ} : ∀ n i, i ≤ k → k ≤ i + n → (∀ j, i ≤ j → j < k → cond j = false) →
    (k = i + n ∨ cond k = true) → transitionLoop cond i n = k := by
  intro n
  induction n with
  | zero =>
    intro i hlow hhigh hbefore hend
    rw [transitionLoop]
    omega
  | succ n ih =>
    intro i hlow hhigh hbefore hend
    rw [transitionLoop]
    obtain rfl | hlt := hlow.eq_or_lt
    · have hstop : cond i = true := hend.resolve_left (by omega)
      rw [if_pos hstop]
    · rw [if_neg (by simp [hbefore i le_rfl hlt])]
      exact ih (i + 1) hlt (by omega) (fun j hj hj' => hbefore j (by omega) hj') (hend.imp (fun h => by omega) id)

def ClaimedBy (s : state) (secTemp : UTCValue) (d : Bool) (j : ℕ) : Prop :=
  secTemp.lo.toInt < s.localTransition (j + 1) (s.typeOf j) ∧ IsUTClt secTemp max_UNIX_sgn_time = true ∧ d = s.isdst (s.typeOf j)

instance (s : state) (secTemp : UTCValue) (d : Bool) (j : ℕ) : Decidable (ClaimedBy s secTemp d j) :=
  inferInstanceAs (Decidable (_ ∧ _))

variable {secTemp : UTCValue} {i : ℕ}

theorem localLoop_eq {d : Bool} {k : ℕ} : ∀ n i, i ≤ k → k ≤ i + n →
    (∀ j, i ≤ j → j ≤ k → j < i + n → s.localTransition j (s.typeOf j) ≤ secTemp.lo.toInt) →
    (∀ j, i ≤ j → j < k → ¬ClaimedBy s secTemp d j) → (k = i + n ∨ ClaimedBy s secTemp d k) →
    localLoop s secTemp (some d) (i + 1) (s.typeOf i) n = .ok (s.typeOf k) := by
  intro n
  induction n with
  | zero =>
    intro i hlow hhigh hstarts hbefore hend
    obtain rfl : i = k := by omega
    rfl
  | succ n ih =>
    intro i hlow hhigh hstarts hbefore hend
    have hclaimed : (secTemp.lo.toInt < s.localTransition (i + 1) (s.typeOf i) ∧ IsUTClt secTemp max_UNIX_sgn_time = true ∧
        (some d).all (· == s.isdst (s.typeOf i)) = true) ↔ ClaimedBy s secTemp d i := by
      rw [ClaimedBy, Option.all_some, beq_iff_eq]
    rw [localLoop, Nat.add_sub_cancel]
    rw [if_neg (not_lt.mpr (hstarts i le_rfl hlow (by omega))), if_congr hclaimed rfl rfl]
    obtain rfl | hlt := hlow.eq_or_lt
    · rw [if_pos (hend.resolve_left (by omega))]
    · rw [if_neg (hbefore i le_rfl hlt)]
      exact ih (i + 1) hlt (by omega) (fun j hj hj' hj'' => hstarts j (by omega) hj' (by omega))
        (fun j hj hj' => hbefore j (by omega) hj') (hend.imp (fun h => by omega) id)

theorem transition_bounds (s : state) (i : ℕ) : -2 ^ 31 ≤ s.transition i ∧ s.transition i < 2 ^ 31 :=
  ⟨BitVec.le_toInt _, BitVec.toInt_lt⟩

theorem transition_le (hs : ZoneKept s σ) {i j : ℕ} (hle : i ≤ j) (hj : j < s.timecnt) : s.transition i ≤ s.transition j := by
  obtain rfl | hlt := hle.eq_or_lt
  · exact le_rfl
  · exact (hs.increasing i j hlt hj).le

theorem InForce.cases (hs : ZoneKept s σ) {ticks : ℤ} (hforce : InForce s ticks τ) :
    (τ = σ ∧ ((∀ i < s.timecnt, ticks < s.transition i * K_100NS_PER_SEC) ∨ 2 ^ 31 * K_100NS_PER_SEC ≤ ticks)) ∨
    (ticks < 2 ^ 31 * K_100NS_PER_SEC ∧ ∃ k < s.timecnt, s.transition k * K_100NS_PER_SEC ≤ ticks ∧
      (∀ i, k < i → i < s.timecnt → ticks < s.transition i * K_100NS_PER_SEC) ∧ τ = s.typeOf k) := by
  rw [InForce] at hforce
  split_ifs at hforce with hearly
  · obtain hsegment | ⟨hbefore, hstandard⟩ := hforce
    · exact .inr ⟨hearly, hsegment⟩
    · exact .inl ⟨hstandard.unique hs.standard, .inl hbefore⟩
  · exact .inl ⟨hforce.unique hs.standard, .inr (not_lt.mp hearly)⟩

theorem inForce_exists (hs : ZoneKept s σ) (ticks : ℤ) : ∃ τ, InForce s ticks τ := by
  by_cases hearly : ticks < 2 ^ 31 * K_100NS_PER_SEC
  · simp only [InForce, if_pos hearly]
    by_cases hany : ∃ k < s.timecnt, s.transition k * K_100NS_PER_SEC ≤ ticks
    · obtain ⟨i, hi, hle⟩ := hany
      obtain ⟨k, hk⟩ : ∃ k, k = Nat.findGreatest (fun i => s.transition i * K_100NS_PER_SEC ≤ ticks) (s.timecnt - 1) := ⟨_, rfl⟩
      have hlast : s.transition k * K_100NS_PER_SEC ≤ ticks := by
        rw [hk]
        exact Nat.findGreatest_spec (P := fun i => s.transition i * K_100NS_PER_SEC ≤ ticks) (Nat.le_sub_one_of_lt hi) hle
      have hbound : k ≤ s.timecnt - 1 := by
        rw [hk]
        exact Nat.findGreatest_le _
      refine ⟨_, .inl ⟨k, by omega, hlast, ?_, rfl⟩⟩
      intro j hlater hj
      rw [hk] at hlater
      exact not_le.mp (Nat.findGreatest_is_greatest hlater (Nat.le_sub_one_of_lt hj))
    · push Not at hany
      exact ⟨σ, .inr ⟨hany, hs.standard⟩⟩
  · exact ⟨σ, by rw [InForce, if_neg hearly]; exact hs.standard⟩

theorem seconds_lt {ticks q r : ℤ} (hwhole : WholeSecond s ticks) (hsum : K_100NS_PER_SEC * q + r = ticks)
    (hlow : -K_100NS_PER_SEC < r) (hpos : 0 ≤ ticks → 0 ≤ r ∧ 0 ≤ q) (hi : i < s.timecnt)
    (hlt : ticks < s.transition i * K_100NS_PER_SEC) : q < s.transition i := by
  have hround := hwhole i hi hlt
  rw [K_100NS_PER_SEC] at *
  omega

theorem seconds_le {ticks q r x : ℤ} (hsum : K_100NS_PER_SEC * q + r = ticks) (hhigh : r < K_100NS_PER_SEC)
    (hle : x * K_100NS_PER_SEC ≤ ticks) : x ≤ q := by
  rw [K_100NS_PER_SEC] at *
  omega

theorem find_ttis_given_utc_spec (hs : ZoneKept s σ) (hwhole : WholeSecond s (unixTicks t))
    (hforce : InForce s (unixTicks t) τ) : find_ttis_given_utc s t = .ok τ := by
  have hmin : min_UNIX_sgn_time.toInt = -2 ^ 31 := by decide
  have hmax : max_UNIX_sgn_time.toInt = 2 ^ 31 - 1 := by decide
  obtain ⟨q, temp, hdiv, hq, hsum, hlow, hhigh, hpos, hneg⟩ :=
    UTCiDiv_parts (UTCadd t diff_UTC_UNIX_ticks) (d := K_100NS_PER_SEC) (by decide) (by decide)
  have hadd := toInt_UTCadd_diff t
  rw [find_ttis_given_utc, bind_of_ok _ hdiv]
  dsimp only
  simp only [IsUTClt_iff, IsUTCgt_iff, hq, hmin, hmax]
  obtain ⟨rfl, hstandard⟩ | ⟨hearly, k, hk, hstart, hafter, rfl⟩ := hforce.cases hs
  · rw [if_pos, standardLoop_spec hs.standard hs.found _ 0 (Nat.zero_le _) (Nat.zero_add _)]
    by_cases hnone : s.timecnt = 0
    · exact .inl hnone
    · right
      obtain hbefore | hlate := hstandard
      · have hfirst := hbefore 0 (by omega)
        obtain hsame | ⟨-, hwrap⟩ := hadd
        · -- the first transition is still to come in the truncated seconds
          rw [hsame] at hsum hpos
          have hlt := seconds_lt hwhole hsum hlow hpos (by omega) hfirst
          by_cases hsmall : q < -2 ^ 31
          · exact .inl hsmall
          · have hbound := transition_bounds s 0
            refine .inr (.inr ?_)
            rwa [toInt_lo, hq] <;> omega
        · rw [K_100NS_PER_SEC] at *
          exact .inr (.inl (by omega))
      · have hsame : (UTCadd t diff_UTC_UNIX_ticks).toInt = unixTicks t := by
          refine hadd.resolve_right fun hwrap => ?_
          rw [K_100NS_PER_SEC] at hlate
          omega
        have hle := seconds_le (hsum.trans hsame) hhigh hlate
        exact .inr (.inl (by omega))
  · have hbounds := transition_bounds s k
    have hsame : (UTCadd t diff_UTC_UNIX_ticks).toInt = unixTicks t := by
      refine hadd.resolve_right fun hwrap => ?_
      rw [K_100NS_PER_SEC] at hstart
      omega
    rw [hsame] at hsum hpos hneg
    have hle := seconds_le hsum hhigh hstart
    have hlt : q < 2 ^ 31 := by
      rw [K_100NS_PER_SEC] at *
      omega
    have hlo : (UTCValue.lo (.ofInt 64 q)).toInt = q := by rw [toInt_lo, hq] <;> omega
    have hfirst := transition_le hs (Nat.zero_le k) hk
    rw [if_neg (by rw [hlo]; omega)]
    have hloop : transitionLoop (fun i => decide ((UTCValue.lo (.ofInt 64 q)).toInt < s.transition i) &&
        !IsUTCgt (.ofInt 64 q) max_UNIX_sgn_time && !IsUTClt (.ofInt 64 q) min_UNIX_sgn_time) 1 (s.timecnt - 1) = k + 1 := by
      refine transitionLoop_eq _ _ (by omega) (by omega) ?_ ?_
      · intro j hj hj'
        have hbefore := transition_le hs (show j ≤ k by omega) hk
        rw [hlo, decide_eq_false (by omega), Bool.false_and, Bool.false_and]
      · obtain hlast | hnext := (show k + 1 ≤ s.timecnt by omega).eq_or_lt
        · exact .inl (by omega)
        · right
          have hlater := seconds_lt hwhole hsum hlow hpos hnext (hafter (k + 1) (by omega) hnext)
          have hgt : IsUTCgt (.ofInt 64 q) max_UNIX_sgn_time = false := by
            rw [Bool.eq_false_iff, Ne, IsUTCgt_iff, hmax, hq]
            omega
          have hlt' : IsUTClt (.ofInt 64 q) min_UNIX_sgn_time = false := by
            rw [Bool.eq_false_iff, Ne, IsUTClt_iff, hmin, hq]
            omega
          rw [hlo, decide_eq_true hlater, hgt, hlt']
          rfl
    rw [hloop, Nat.add_sub_cancel]

theorem typeOf_lt (hi : i < s.timecnt) : s.typeOf i < s.ttis.length := by
  have hlength : i < s.types.length := by rwa [s.length_eq]
  refine s.types_lt _ ?_
  rw [state.typeOf, List.getD_eq_getElem?_getD, List.getElem?_eq_getElem hlength, Option.getD_some]
  exact List.getElem_mem hlength

theorem localTransition_eq (hs : ZoneKept s σ) (hi : i < s.timecnt) (hτ : τ < s.ttis.length) :
    s.localTransition i τ = s.transition i + s.gmtoff τ := by
  obtain ⟨hlow, hhigh⟩ := hs.fits i hi τ hτ
  rw [state.localTransition, toInt_add_small]
  · rfl
  · exact hlow
  · exact hhigh

def Outside (secTemp : UTCValue) : Prop := secTemp.toInt < -2 ^ 31 ∨ 2 ^ 31 ≤ secTemp.toInt

theorem inTable_iff (hs : ZoneKept s σ) : inTable s secTemp = true ↔
    s.timecnt ≠ 0 ∧ ¬Outside secTemp ∧ s.transition 0 + s.gmtoff (s.typeOf 0) ≤ secTemp.toInt := by
  have hmin : min_UNIX_sgn_time.toInt = -2 ^ 31 := by decide
  have hmax : max_UNIX_sgn_time.toInt = 2 ^ 31 - 1 := by decide
  rw [inTable, Bool.and_eq_true, Bool.and_eq_true, Bool.and_eq_true, Bool.not_eq_true', Bool.not_eq_true', Bool.eq_false_iff,
    Bool.eq_false_iff, decide_eq_true_eq, decide_eq_true_eq, Ne, Ne, Ne, IsUTClt_iff, IsUTCgt_iff, hmin, hmax, Outside]
  constructor
  · rintro ⟨⟨⟨hcount, hlow⟩, hhigh⟩, hstart⟩
    rw [toInt_lo (by omega) (by omega), localTransition_eq hs (by omega) (typeOf_lt (by omega))] at hstart
    exact ⟨hcount, by omega, hstart⟩
  · rintro ⟨hcount, hrange, hstart⟩
    refine ⟨⟨⟨hcount, by omega⟩, by omega⟩, ?_⟩
    rwa [toInt_lo (by omega) (by omega), localTransition_eq hs (by omega) (typeOf_lt (by omega))]

theorem start_le (hs : ZoneKept s σ) {j k : ℕ} {x : ℤ} (hk : k < s.timecnt) (hx : s.transition k ≤ x) (hj : j ≤ k) :
    s.transition j + s.gmtoff (s.typeOf j) ≤ x + s.gmtoff (s.typeOf k) := by
  obtain rfl | hlt := hj.eq_or_lt
  · omega
  · have hclose := hs.close j (by omega) k hk j (by omega)
    have hnext := transition_le hs (show j + 1 ≤ k by omega) hk
    omega

theorem not_claimed (hs : ZoneKept s σ) {j k : ℕ} {x : ℤ} (hk : k < s.timecnt) (hx : s.transition k ≤ x)
    (hlo : secTemp.lo.toInt = x + s.gmtoff (s.typeOf k)) (hj : j < k) :
    ¬ClaimedBy s secTemp (s.isdst (s.typeOf k)) j := by
  rintro ⟨hbefore, -, hsame⟩
  rw [hlo, localTransition_eq hs (by omega) (typeOf_lt (by omega))] at hbefore
  obtain hlast | hearlier := (show j + 1 ≤ k by omega).eq_or_lt
  · rw [hlast] at hbefore
    have hback : s.gmtoff (s.typeOf (j + 1)) < s.gmtoff (s.typeOf j) := by
      rw [hlast]
      omega
    have hdst := hs.setBack j (by omega) hback
    rw [hlast] at hdst
    exact hdst hsame
  · have hclose := hs.close j (by omega) k hk (j + 1) (by omega)
    have hnext := transition_le hs (show j + 1 + 1 ≤ k by omega) hk
    omega

theorem find_ttis_given_local_spec (hs : ZoneKept s σ) {ticks : ℤ} (hforce : InForce s ticks τ) (hlocal : LocalSeconds s ticks τ)
    (hsec : secTemp.toInt = ticks / K_100NS_PER_SEC + s.gmtoff τ ∨
      (Outside secTemp ∧ (ticks < -2 ^ 31 * K_100NS_PER_SEC ∨ 2 ^ 31 * K_100NS_PER_SEC ≤ ticks))) :
    find_ttis_given_local s secTemp (if s.isdst τ then 1 else 0) = .ok τ := by
  have hasserted : (if s.isdst τ = true then 1 else 0 : BitVec 32).slt 0 = false ∧
      decide ((if s.isdst τ = true then 1 else 0 : BitVec 32).toInt > 0) = s.isdst τ := by
    cases s.isdst τ <;> decide
  rw [find_ttis_given_local, hasserted.1, hasserted.2, if_neg Bool.false_ne_true]
  dsimp only
  obtain ⟨rfl, hstandard⟩ | ⟨hearly, k, hk, hstart, hafter, rfl⟩ := hforce.cases hs
  · have hout : ¬inTable s secTemp = true := by
      rw [inTable_iff hs]
      rintro ⟨hcount, hrange, hlate⟩
      obtain hsame | ⟨houtside, -⟩ := hsec
      · have hfirst := hs.first (by omega)
        obtain hbefore | hafter := hstandard
        · have hlt := hbefore 0 (by omega)
          rw [K_100NS_PER_SEC] at *
          omega
        · have hbounds := transition_bounds s 0
          have hseconds := hlocal (by omega) (by rw [K_100NS_PER_SEC] at *; omega)
          rw [if_neg (not_lt.mpr hafter)] at hseconds
          rw [Outside] at hrange
          omega
      · exact hrange houtside
    rw [if_neg hout, bind_of_ok _ (standardLoop_spec hs.standard hs.found _ 0 (Nat.zero_le _) (Nat.zero_add _)),
      if_neg (not_not.mpr rfl)]
  · have hbounds := transition_bounds s k
    have hfirst := transition_le hs (Nat.zero_le k) hk
    have hseconds := hlocal (by omega) (by rw [K_100NS_PER_SEC] at *; omega)
    rw [if_pos hearly] at hseconds
    have hsame : secTemp.toInt = ticks / K_100NS_PER_SEC + s.gmtoff (s.typeOf k) := by
      refine hsec.resolve_right fun hout => ?_
      rw [K_100NS_PER_SEC] at *
      omega
    have hx : s.transition k ≤ ticks / K_100NS_PER_SEC := by
      rw [K_100NS_PER_SEC] at *
      omega
    have hlo : secTemp.lo.toInt = ticks / K_100NS_PER_SEC + s.gmtoff (s.typeOf k) := by rw [toInt_lo] <;> omega
    have hin : inTable s secTemp = true := by
      rw [inTable_iff hs, hsame, Outside]
      exact ⟨by omega, by omega, start_le hs hk hx (Nat.zero_le k)⟩
    have hloop : localLoop s secTemp (some (s.isdst (s.typeOf k))) (0 + 1) (s.typeOf 0) (s.timecnt - 1) = .ok (s.typeOf k) := by
      apply localLoop_eq
      · exact Nat.zero_le k
      · omega
      · intro j hj hj' hj''
        rw [localTransition_eq hs (by omega) (typeOf_lt (by omega)), hlo]
        exact start_le hs hk hx hj'
      · intro j hj hj'
        exact not_claimed hs hk hx hlo hj'
      · obtain hlast | hnext := (show k + 1 ≤ s.timecnt by omega).eq_or_lt
        · exact .inl (by omega)
        · have hmax : max_UNIX_sgn_time.toInt = 2 ^ 31 - 1 := by decide
          have hlater := hafter (k + 1) (by omega) hnext
          refine .inr ⟨?_, ?_, rfl⟩
          · rw [hlo, localTransition_eq hs hnext (typeOf_lt hk)]
            rw [K_100NS_PER_SEC] at *
            omega
          · rw [IsUTClt_iff, hmax]
            omega
    rw [if_pos hin, bind_of_ok _ hloop, if_neg (not_not.mpr rfl)]

theorem localTime_cases (t : UTCValue) {o : ℤ} (hlow : -2 ^ 31 ≤ o) (hhigh : o < 2 ^ 31) :
    (localTime t o).toInt = t.toInt + o * K_100NS_PER_SEC ∨
      (2 ^ 63 ≤ t.toInt + o * K_100NS_PER_SEC ∧ (localTime t o).toInt < -2 ^ 62) ∨
      (t.toInt + o * K_100NS_PER_SEC < -2 ^ 63 ∧ 2 ^ 62 ≤ (localTime t o).toInt) := by
  have hword : (BitVec.ofInt 32 o).toInt = o := toInt_word hlow hhigh
  have hticks : (BitVec.ofInt 32 K_100NS_PER_SEC).toInt = K_100NS_PER_SEC := by decide
  have hsum : localTime t o = .ofInt 64 (t.toInt + o * K_100NS_PER_SEC) := by
    rw [localTime, UTCadd, value_emul, hword, hticks, BitVec.ofInt_add, BitVec.ofInt_toInt, BitVec.add_comm]
  have ht := toInt_inRange t
  rw [InRange] at ht
  rw [hsum, BitVec.toInt_ofInt, Int.bmod_def]
  rw [K_100NS_PER_SEC]
  split_ifs <;> omega

theorem secTemp_cases {timetm : tm} {tns : BitVec 32} {frac o : ℤ} (htm : IsCivil timetm tns frac) (hlow : -2 ^ 31 ≤ o)
    (hhigh : o < 2 ^ 31) (hticks : timetm.civilTicks frac = (localTime t o).toInt)
    (hsec : secTemp = UTCadd (.ofInt 64 timetm.civilSeconds) diff_UTC_UNIX_secs) :
    secTemp.toInt = unixTicks t / K_100NS_PER_SEC + o ∨
      (Outside secTemp ∧ (unixTicks t < -2 ^ 31 * K_100NS_PER_SEC ∨ 2 ^ 31 * K_100NS_PER_SEC ≤ unixTicks t)) := by
  have hseconds : timetm.civilTicks frac = timetm.civilSeconds * K_100NS_PER_SEC + frac := by
    rw [tm.civilTicks, tm.civilSeconds, K_100NS_PER_DAY]
    ring
  have hfrac := htm.frac_lt
  have hdiff : diff_UTC_UNIX_secs.toInt = -12219292800 := by decide
  have hdiff' : diff_UTC_UNIX_ticks.toInt = -122192928000000000 := by decide
  have hlocal := toInt_inRange (localTime t o)
  have ht := toInt_inRange t
  rw [InRange] at hlocal ht
  rw [hticks] at hseconds
  have hsecTemp : secTemp.toInt = timetm.civilSeconds - 12219292800 := by
    rw [hsec, UTCadd, BitVec.toInt_add, hdiff, toInt_ofInt_of_inRange, Int.bmod_eq_of_le]
    · rfl
    · rw [K_100NS_PER_SEC] at *
      omega
    · rw [K_100NS_PER_SEC] at *
      omega
    · rw [InRange]
      rw [K_100NS_PER_SEC] at *
      omega
  have hcases := localTime_cases t hlow hhigh
  rw [unixTicks, hdiff', Outside, hsecTemp]
  rw [K_100NS_PER_SEC] at *
  obtain hsame | ⟨hwrap, hlocal'⟩ | ⟨hwrap, hlocal'⟩ := hcases
  · left
    omega
  · right
    omega
  · right
    omega

theorem local_round_trip (order : ByteOrder) (hs : ZoneKept s σ) {utc : utc_t} {inacc : UTCValue} {tdf : ℤ}
    (hcomptime : utc_comptime ⟨order, .b32⟩ utc = .ok (t, inacc, tdf)) (hwhole : WholeSecond s (unixTicks t))
    (hforce : InForce s (unixTicks t) τ) (hlocal : LocalSeconds s (unixTicks t) τ) (hyear : YearKept (localTime t (s.gmtoff τ))) :
    localRoundTrip order s utc = timeOf order utc := by
  have hfind := find_ttis_given_utc_spec hs hwhole hforce
  obtain ⟨hgiven, -⟩ := utc_comptime_spec hcomptime
  obtain ⟨inacctm, ins, hsplit, hmerge⟩ := inacctm_spec order hgiven
  obtain ⟨timetm, tns, frac, htime, htm, hticks, -, -⟩ := splittime_spec t (s.gmtoff τ)
  obtain ⟨civil, hcivil⟩ : ∃ civil : tm, civil = { timetm with tm_isdst := if s.isdst τ then 1 else 0 } := ⟨_, rfl⟩
  have hcall : utc_localtime order s utc = .ok ((civil, tns), inacctm, ins) := by
    rw [utc_localtime, bind_of_ok _ hcomptime]
    dsimp only
    rw [bind_of_ok _ hsplit, bind_of_ok _ hfind, bind_of_ok _ htime, hcivil]
  have htm' : IsCivil civil tns frac := hcivil ▸ htm.with_isdst _
  have hticks' : civil.civilTicks frac = (localTime t (s.gmtoff τ)).toInt := by
    rw [← hticks, hcivil]
    rfl
  have hkept := hyear civil.date htm'.valid (by rw [← htm'.ticks_parts.1, hticks'])
  have hmergetime := mergetime_spec htm' hkept.1
  rw [leapError_eq_zero_iff.mpr hkept.2, zero_mul, zero_mul, add_zero, add_zero, hticks', BitVec.ofInt_toInt] at hmergetime
  have hsec := secTemp_cases htm' (BitVec.le_toInt _) BitVec.toInt_lt hticks' rfl
  have hlocal' := find_ttis_given_local_spec hs hforce hlocal hsec
  have hisdst : civil.tm_isdst = if s.isdst τ then 1 else 0 := by rw [hcivil]
  obtain ⟨utc', tdf', hmake, hreads, -⟩ := utc_mkcomptime_reads order t inacc (s.gmtoff τ)
  rw [hgiven] at hreads
  have hback : UTCsub (localTime t (s.gmtoff τ)) (emul (.ofInt 32 (s.gmtoff τ)) (.ofInt 32 K_100NS_PER_SEC)).value = t := by
    rw [localTime, UTCsub, UTCadd, BitVec.add_comm]
    exact BitVec.add_sub_cancel t _
  have hmklocaltime : utc_mklocaltime order s civil tns (some inacctm) ins = .ok utc' := by
    rw [utc_mklocaltime, bind_of_ok _ hmerge, bind_of_ok _ hmergetime]
    dsimp only
    rw [hisdst, bind_of_ok _ hlocal', hback]
    exact hmake
  rw [localRoundTrip, bind_of_ok _ hcall]
  dsimp only
  rw [bind_of_ok _ hmklocaltime, timeOf, timeOf, hreads, hcomptime]
  rfl

end

/-- What the conversions keep of a time: its type is the one in force, but for the second before a transition up to 1970, and
its local time is converted back when its seconds are those of the table and its year is one that `mergetime` keeps. -/
def LocalTimeKept (order : ByteOrder) (s : state) (utc : utc_t) : Prop :=
  ∀ t inacc tdf, utc_comptime ⟨order, .b32⟩ utc = .ok (t, inacc, tdf) →
    ∃ τ, InForce s (unixTicks t) τ ∧ (WholeSecond s (unixTicks t) → find_ttis_given_utc s t = .ok τ ∧
      (LocalSeconds s (unixTicks t) τ → YearKept (localTime t (s.gmtoff τ)) → localRoundTrip order s utc = timeOf order utc))

def summerZone : state :=
  ⟨[8640000, 25920000], [1, 0], [⟨3600, false⟩, ⟨7200, true⟩], rfl, by decide, by decide⟩

theorem summerZone_kept : ZoneKept summerZone 0 where
  increasing := by
    intro i j hlt hj
    have hcount : summerZone.timecnt = 2 := rfl
    obtain ⟨rfl, rfl⟩ : i = 0 ∧ j = 1 := by omega
    decide
  standard := ⟨by decide, rfl, fun i hi => absurd hi (Nat.not_lt_zero i)⟩
  found := .inl rfl
  fits := by decide
  close := by
    intro i hi j hj k hk
    have hcount : summerZone.timecnt = 2 := rfl
    obtain rfl : k = 0 := by omega
    revert i j
    decide
  setBack := by
    intro i hi
    have hcount : summerZone.timecnt = 2 := rfl
    obtain rfl : i = 0 := by omega
    decide
  first := by decide

def tenth_day : utc_t := ⟨[0, 0xc0, 0xa2, 0xbb, 0xad, 0x25, 0xb2, 0x01, 0, 0, 0, 0, 0, 0, 0, 0x10], rfl⟩

def setBackZone : state := ⟨[0, 864000], [0, 1], [⟨3600, false⟩, ⟨0, false⟩], rfl, by decide, by decide⟩

end dce.dts
