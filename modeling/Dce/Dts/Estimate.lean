import Dce.Dts.Product
import Dce.Dts.Division

namespace dce.dts

open lib

/-- The parameters of the local clock: its resolution in nanoseconds and its drift in parts of 10⁹. -/
structure clockParams where
  clockResolution : BitVec 32
  clockDrift : BitVec 32
  deriving DecidableEq, Repr

/-- What `EstimateServerTime` is called with: when the request was sent, the server's time and inaccuracy in its response,
    its processing delay, when the response was received, and the local time and inaccuracy at the synchronization. -/
structure Response where
  Tsend : UTCValue
  Tresp : UTCValue
  Iresp : ExtInacc
  procDelay : UTCValue
  Trec : UTCValue
  Tsync : UTCValue
  Isync : ExtInacc
  deriving DecidableEq, Repr

def K_ONE_BILLION : BitVec 32 := 1000000000

def clockParams.resolution (params : clockParams) : BitVec 32 := params.clockResolution / 100

def clockParams.maxDriftReciprocal (params : clockParams) : BitVec 32 := K_ONE_BILLION / params.clockDrift

/-- `ediv` of a time. -/
def edivTime (indeterminate : BitVec 32 × BitVec 32) (dividend : UTCValue) (divisor : BitVec 32) : Quotient :=
  ediv indeterminate { hi := dividend.hi, lo := dividend.lo } divisor

def AddLSToInacc (I : ExtInacc) : ExtInacc := if IsInfiniteInacc I then I else UTCiAdd I (1 * K_100NS_PER_SEC)

def IsGreaterThanOrEqualNextLS (T : UTCValue) (I : ExtInacc) (nextLS : UTCValue) : Bool :=
  if IsInfiniteInacc I then true else !IsUTClt (UTCadd T I) nextLS

/-- The condition under which `EstimateServerTime` allows for a leap second. -/
def Response.leapSecond (r : Response) (nextLS : UTCValue) : Bool :=
  !IsGreaterThanOrEqualNextLS r.Tresp r.Iresp nextLS && IsGreaterThanOrEqualNextLS r.Tsync r.Isync nextLS

/-- `EstimateServerTime`: the server's time and inaccuracy at the synchronization, `invalid` for `DTSS_ERROR`. -/
def EstimateServerTime (params : clockParams) (nextLS : UTCValue) (indeterminate : BitVec 32 × BitVec 32) (r : Response) :
    Except Failure (UTCValue × ExtInacc) :=
  if params.clockDrift = 0 then .error .undefined
  else
    let elapsedTime := UTCsub (UTCiAdd r.Trec params.resolution.toInt) r.Tsend
    let maxDriftFactor := edivTime indeterminate elapsedTime params.maxDriftReciprocal
    if maxDriftFactor.overflow then .error .invalid
    else
      let elapsedTime := UTCdivideBy2 (UTCiAdd elapsedTime maxDriftFactor.quot.toInt)
      let procDelayFactor := UTCdivideBy2 r.procDelay
      let Tserv := UTCadd (UTCsub (UTCadd (UTCsub r.Tresp elapsedTime) procDelayFactor) r.Tsend) r.Tsync
      if !IsInfiniteInacc r.Iresp then
        let Iserv := UTCsub (UTCadd r.Iresp elapsedTime) procDelayFactor
        let maxDriftFactor := edivTime indeterminate (UTCsub r.Tsync r.Tsend) params.maxDriftReciprocal
        let Iserv := UTCiAdd Iserv maxDriftFactor.quot.toInt
        let Iserv := if r.leapSecond nextLS then AddLSToInacc Iserv else Iserv
        .ok (Tserv, if IsInfiniteInacc Iserv then K_INFINITE_INACC else Iserv)
      else .ok (Tserv, K_INFINITE_INACC)

/-- The clock's drift, as a part of the time that passes. -/
noncomputable def clockParams.drift (params : clockParams) : ℝ := params.clockDrift.toNat / 10 ^ 9

/-- The clock's resolution in units of 100 ns. -/
noncomputable def clockParams.step (params : clockParams) : ℝ := params.clockResolution.toNat / 100

/-- What may have happened when the readings are those of a response: the true times of the exchange in their order, with
    the server's part of it, and a clock with the parameters that gives the readings. -/
structure Exchange (params : clockParams) (r : Response) where
  send : ℝ
  arrive : ℝ
  read : ℝ
  depart : ℝ
  receive : ℝ
  sync : ℝ
  send_le : send ≤ arrive
  arrive_le : arrive ≤ read
  read_le : read ≤ depart
  depart_le : depart ≤ receive
  receive_le : receive ≤ sync
  clock : Clock params.drift
  sent : Truncated params.step (clock.read send) r.Tsend.toInt
  received : Truncated params.step (clock.read receive) r.Trec.toInt
  synchronized : Truncated params.step (clock.read sync) r.Tsync.toInt
  contains : IsInfiniteInacc r.Iresp = false → Near (r.Tresp.toInt : ℝ) r.Iresp.toNat read
  delay_nonneg : 0 ≤ r.procDelay.toInt
  delay_le : r.procDelay.toInt ≤ depart - arrive

/-- Readings that some exchange can give. -/
structure Response.Possible (params : clockParams) (r : Response) : Prop where
  resolution_pos : 0 < params.clockResolution.toNat
  send_le : r.Tsend.toInt ≤ r.Trec.toInt
  receive_le : r.Trec.toInt ≤ r.Tsync.toInt
  multiples : ∀ T ∈ [r.Tsend, r.Trec, r.Tsync], (params.clockResolution.toNat : ℤ) ∣ 100 * T.toInt
  delay_nonneg : 0 ≤ r.procDelay.toInt
  delay_lt : (10 ^ 9 - params.clockDrift.toNat) * r.procDelay.toInt * 100 <
    10 ^ 9 * (100 * (r.Trec.toInt - r.Tsend.toInt) + params.clockResolution.toNat)

/-- The time that passes on the local clock until the response is there. -/
def Response.elapsed (params : clockParams) (r : Response) : ℤ :=
  (UTCsub (UTCiAdd r.Trec params.resolution.toInt) r.Tsend).toInt

/-- The drift in that time can be divided out. -/
structure Response.DriftFits (params : clockParams) (r : Response) : Prop where
  drift_ne : params.clockDrift ≠ 0
  reciprocal_ne : params.maxDriftReciprocal ≠ 0
  low : -2 ^ 31 ≤ (r.elapsed params).tdiv params.maxDriftReciprocal.toInt
  high : (r.elapsed params).tdiv params.maxDriftReciprocal.toInt < 2 ^ 31

def Response.half (params : clockParams) (r : Response) : ℤ :=
  (r.elapsed params + (r.elapsed params).tdiv params.maxDriftReciprocal.toInt) % 2 ^ 64 / 2

/-- The drift from sending to the synchronization, or what `ediv` leaves there if it is more than a word. -/
def Response.drifted (params : clockParams) (indeterminate : BitVec 32 × BitVec 32) (r : Response) : ℤ :=
  (edivTime indeterminate (UTCsub r.Tsync r.Tsend) params.maxDriftReciprocal).quot.toInt

def Response.Finite (params : clockParams) (indeterminate : BitVec 32 × BitVec 32) (r : Response) : Prop :=
  IsInfiniteInacc r.Iresp = false ∧
    (r.Iresp.toNat + r.half params - r.procDelay.toNat / 2 + r.drifted params indeterminate) % 2 ^ 64 < 2 ^ 48 - 1

theorem toInt_maxDriftReciprocal (params : clockParams) :
    params.maxDriftReciprocal.toInt = (10 ^ 9 / params.clockDrift.toNat : ℕ) := by
  have hquot : params.maxDriftReciprocal.toNat = 10 ^ 9 / params.clockDrift.toNat := BitVec.toNat_udiv
  have hle : 10 ^ 9 / params.clockDrift.toNat ≤ 10 ^ 9 := Nat.div_le_self _ _
  rw [BitVec.toInt_eq_toNat_of_lt (by omega), hquot]

theorem edivTime_spec (indeterminate : BitVec 32 × BitVec 32) (x : UTCValue) (d : BitVec 32) :
    ((edivTime indeterminate x d).overflow = false ↔ d ≠ 0 ∧ -2 ^ 31 ≤ x.toInt.tdiv d.toInt ∧ x.toInt.tdiv d.toInt < 2 ^ 31) ∧
      ((edivTime indeterminate x d).overflow = false → (edivTime indeterminate x d).quot.toInt = x.toInt.tdiv d.toInt) := by
  have hspec := ediv_spec indeterminate { hi := x.hi, lo := x.lo } d
  rw [words_value] at hspec
  exact ⟨hspec.1, fun h => (hspec.2 h).1⟩

variable {params : clockParams} {r : Response}

theorem estimate_error (nextLS : UTCValue) (indeterminate : BitVec 32 × BitVec 32)
    (h : ¬ r.DriftFits params) : ∃ failure, EstimateServerTime params nextLS indeterminate r = .error failure := by
  unfold EstimateServerTime
  by_cases hzero : params.clockDrift = 0
  · exact ⟨.undefined, if_pos hzero⟩
  · have hover : (edivTime indeterminate (UTCsub (UTCiAdd r.Trec params.resolution.toInt) r.Tsend)
        params.maxDriftReciprocal).overflow = true := by
      rw [← Bool.not_eq_false, (edivTime_spec _ _ _).1]
      exact fun ⟨hne, hlow, hhigh⟩ => h ⟨hzero, hne, hlow, hhigh⟩
    exact ⟨.invalid, by rw [if_neg hzero]; exact if_pos hover⟩

theorem ofInt_toNat (x : BitVec 64) : BitVec.ofInt 64 x.toNat = x := by
  rw [BitVec.ofInt_natCast, BitVec.ofNat_toNat, BitVec.setWidth_eq]

theorem UTCdivideBy2_eq (x : UTCValue) : UTCdivideBy2 x = BitVec.ofInt 64 (x.toNat / 2) := by
  have hx := x.isLt
  apply BitVec.eq_of_toNat_eq
  rw [UTCdivideBy2, BitVec.toNat_ushiftRight, Nat.shiftRight_eq_div_pow, BitVec.toNat_ofInt]
  omega

theorem toNat_UTCiAdd_mod (x : UTCValue) (i : ℤ) : ((UTCiAdd x i).toNat : ℤ) = (x.toInt + i) % 2 ^ 64 := by
  have hmod : 0 ≤ (x.toInt + i) % 2 ^ 64 := Int.emod_nonneg _ (by norm_num)
  rw [UTCiAdd, ← BitVec.ofInt_toInt (x := x), ← BitVec.ofInt_add, BitVec.toNat_ofInt, BitVec.ofInt_toInt]
  exact Int.toNat_of_nonneg hmod

theorem finite_ofInt_iff (z : ℤ) : IsInfiniteInacc (BitVec.ofInt 64 z) = false ↔ z % 2 ^ 64 < 2 ^ 48 - 1 := by
  have hmod : 0 ≤ z % 2 ^ 64 := Int.emod_nonneg _ (by norm_num)
  have hpow : ((2 ^ 64 : ℕ) : ℤ) = 2 ^ 64 := by norm_num
  rw [← Bool.not_eq_true, IsInfiniteInacc_iff, BitVec.toNat_ofInt, hpow]
  omega

theorem estimate_ok {nextLS : UTCValue} (indeterminate : BitVec 32 × BitVec 32)
    (h : r.DriftFits params) (hleap : r.leapSecond nextLS = false) : ∃ Tserv Iserv,
      EstimateServerTime params nextLS indeterminate r = .ok (Tserv, Iserv) ∧
      Tserv = BitVec.ofInt 64 (r.Tresp.toInt - r.half params + r.procDelay.toNat / 2 - r.Tsend.toInt + r.Tsync.toInt) ∧
      (r.Finite params indeterminate ↔ IsInfiniteInacc Iserv = false) ∧
      (IsInfiniteInacc Iserv = false → Iserv = BitVec.ofInt 64
        (r.Iresp.toNat + r.half params - r.procDelay.toNat / 2 + r.drifted params indeterminate)) := by
  have hspec := edivTime_spec indeterminate (UTCsub (UTCiAdd r.Trec params.resolution.toInt) r.Tsend)
    params.maxDriftReciprocal
  have hover := hspec.1.mpr ⟨h.reciprocal_ne, h.low, h.high⟩
  have hhalf : UTCdivideBy2 (UTCiAdd (UTCsub (UTCiAdd r.Trec params.resolution.toInt) r.Tsend)
      (edivTime indeterminate (UTCsub (UTCiAdd r.Trec params.resolution.toInt) r.Tsend)
        params.maxDriftReciprocal).quot.toInt) = BitVec.ofInt 64 (r.half params) := by
    rw [UTCdivideBy2_eq, toNat_UTCiAdd_mod, hspec.2 hover]
    rfl
  have hsum : UTCiAdd (UTCsub (UTCadd r.Iresp (BitVec.ofInt 64 (r.half params))) (UTCdivideBy2 r.procDelay))
      (edivTime indeterminate (UTCsub r.Tsync r.Tsend) params.maxDriftReciprocal).quot.toInt = BitVec.ofInt 64
        (r.Iresp.toNat + r.half params - r.procDelay.toNat / 2 + r.drifted params indeterminate) := by
    rw [BitVec.ofInt_add, ofInt_sub, BitVec.ofInt_add, ofInt_toNat, ← UTCdivideBy2_eq, UTCiAdd, UTCsub, UTCadd,
      Response.drifted]
  have hTserv : UTCadd (UTCsub (UTCadd (UTCsub r.Tresp (BitVec.ofInt 64 (r.half params))) (UTCdivideBy2 r.procDelay))
      r.Tsend) r.Tsync = BitVec.ofInt 64
        (r.Tresp.toInt - r.half params + r.procDelay.toNat / 2 - r.Tsend.toInt + r.Tsync.toInt) := by
    rw [BitVec.ofInt_add, ofInt_sub, BitVec.ofInt_add, ofInt_sub, ← UTCdivideBy2_eq, BitVec.ofInt_toInt, BitVec.ofInt_toInt,
      BitVec.ofInt_toInt, UTCadd, UTCsub, UTCadd, UTCsub]
  have hfinite : r.Finite params indeterminate ↔ IsInfiniteInacc r.Iresp = false ∧ IsInfiniteInacc (BitVec.ofInt 64
      (r.Iresp.toNat + r.half params - r.procDelay.toNat / 2 + r.drifted params indeterminate)) = false := by
    rw [Response.Finite, finite_ofInt_iff]
  unfold EstimateServerTime
  simp only [if_neg h.drift_ne, hover, Bool.false_eq_true, ↓reduceIte, hhalf, hsum, hTserv, hleap]
  have hinfinite : IsInfiniteInacc K_INFINITE_INACC = true := IsInfiniteInacc_iff.mpr (by decide)
  cases hinf : IsInfiniteInacc r.Iresp
  · cases hsuminf : IsInfiniteInacc (BitVec.ofInt 64
      (r.Iresp.toNat + r.half params - r.procDelay.toNat / 2 + r.drifted params indeterminate))
    · exact ⟨_, _, rfl, rfl, iff_of_true (hfinite.mpr ⟨hinf, hsuminf⟩) hsuminf, fun _ => rfl⟩
    · exact ⟨_, _, rfl, rfl, iff_of_false (fun hfin => Bool.noConfusion (hsuminf.symm.trans (hfinite.mp hfin).2))
        (fun h => Bool.noConfusion (h.symm.trans hinfinite)), fun h => Bool.noConfusion (h.symm.trans hinfinite)⟩
  · exact ⟨_, _, rfl, rfl, iff_of_false (fun hfin => Bool.noConfusion (hinf.symm.trans (hfinite.mp hfin).1))
      (fun h => Bool.noConfusion (h.symm.trans hinfinite)), fun h => Bool.noConfusion (h.symm.trans hinfinite)⟩

theorem reciprocal_bounds (h : params.maxDriftReciprocal ≠ 0) :
    1 ≤ params.maxDriftReciprocal.toInt ∧ params.maxDriftReciprocal.toInt ≤ 10 ^ 9 ∧ params.drift ≤ 1 ∧
      params.maxDriftReciprocal.toInt * params.drift ≤ 1 ∧ 1 < (params.maxDriftReciprocal.toInt + 1) * params.drift := by
  have hle : 10 ^ 9 / params.clockDrift.toNat ≤ 10 ^ 9 := Nat.div_le_self _ _
  have hpos : 1 ≤ 10 ^ 9 / params.clockDrift.toNat := by
    by_contra hlt
    have hzero : 10 ^ 9 / params.clockDrift.toNat = 0 := Nat.lt_one_iff.mp (Nat.lt_of_not_le hlt)
    have hquot := toInt_maxDriftReciprocal params
    rw [hzero, Nat.cast_zero] at hquot
    exact h (BitVec.eq_of_toInt_eq (by rw [hquot]; rfl))
  have hdrift : 0 < params.clockDrift.toNat := by
    by_contra hzero
    rw [Nat.eq_zero_of_not_pos hzero, Nat.div_zero] at hpos
    omega
  have hfloor : 10 ^ 9 / params.clockDrift.toNat * params.clockDrift.toNat ≤ 10 ^ 9 := Nat.div_mul_le_self _ _
  have hnext : 10 ^ 9 < (10 ^ 9 / params.clockDrift.toNat + 1) * params.clockDrift.toNat :=
    Nat.lt_mul_of_div_lt (Nat.lt_succ_self _) hdrift
  have hsmall : params.clockDrift.toNat ≤ 10 ^ 9 := (Nat.le_mul_of_pos_left _ hpos).trans hfloor
  rw [toInt_maxDriftReciprocal, clockParams.drift]
  generalize 10 ^ 9 / params.clockDrift.toNat = reciprocal at *
  have hfloorReal : (reciprocal : ℝ) * params.clockDrift.toNat ≤ 10 ^ 9 := by exact_mod_cast hfloor
  have hnextReal : (10 ^ 9 : ℝ) < (reciprocal + 1) * params.clockDrift.toNat := by exact_mod_cast hnext
  have hsmallReal : (params.clockDrift.toNat : ℝ) ≤ 10 ^ 9 := by exact_mod_cast hsmall
  refine ⟨by exact_mod_cast hpos, by exact_mod_cast hle, by rw [div_le_one (by norm_num)]; exact hsmallReal, ?_, ?_⟩
  · rw [Int.cast_natCast, ← mul_div_assoc, div_le_one (by norm_num)]
    exact hfloorReal
  · rw [Int.cast_natCast, ← mul_div_assoc, one_lt_div (by norm_num)]
    exact hnextReal

theorem multiple_iff {T : UTCValue} :
    (∃ k : ℤ, (T.toInt : ℝ) = k * params.step) ↔ (params.clockResolution.toNat : ℤ) ∣ 100 * T.toInt := by
  constructor
  · rintro ⟨k, hk⟩
    refine ⟨k, ?_⟩
    have hreal : (100 * T.toInt : ℝ) = params.clockResolution.toNat * k := by
      rw [hk, clockParams.step]
      ring
    exact_mod_cast hreal
  · rintro ⟨k, hk⟩
    refine ⟨k, ?_⟩
    have hreal : (100 * T.toInt : ℝ) = params.clockResolution.toNat * k := by exact_mod_cast hk
    rw [clockParams.step]
    linarith

theorem delay_lt_iff :
    (1 - params.drift) * r.procDelay.toInt < r.Trec.toInt - r.Tsend.toInt + params.step ↔
      (10 ^ 9 - params.clockDrift.toNat) * r.procDelay.toInt * 100 <
        10 ^ 9 * (100 * (r.Trec.toInt - r.Tsend.toInt) + params.clockResolution.toNat) := by
  rw [← Int.cast_lt (R := ℝ), ← mul_lt_mul_iff_right₀ (show (0 : ℝ) < 10 ^ 11 by norm_num), clockParams.drift, clockParams.step]
  push_cast
  constructor <;> intro h <;> linarith

theorem Exchange.possible (x : Exchange params r) (hdrift : params.drift ≤ 1) :
    r.Possible params := by
  have hreceive : x.send ≤ x.receive := x.send_le.trans (x.arrive_le.trans (x.read_le.trans x.depart_le))
  have hfirst : ((r.Tsend.toInt : ℤ) : ℝ) ≤ r.Trec.toInt := x.sent.mono x.received (x.clock.read_mono hdrift hreceive)
  have hsecond : ((r.Trec.toInt : ℤ) : ℝ) ≤ r.Tsync.toInt :=
    x.received.mono x.synchronized (x.clock.read_mono hdrift x.receive_le)
  have hstep := x.sent.resolution_pos
  rw [clockParams.step] at hstep
  refine ⟨?_, by exact_mod_cast hfirst, by exact_mod_cast hsecond, fun T hT => ?_, x.delay_nonneg, ?_⟩
  · have hpos : (0 : ℝ) < params.clockResolution.toNat := by linarith
    exact_mod_cast hpos
  · rw [← multiple_iff]
    simp only [List.mem_cons, List.not_mem_nil, or_false] at hT
    obtain rfl | rfl | rfl := hT
    · exact x.sent.multiple
    · exact x.received.multiple
    · exact x.synchronized.multiple
  · rw [← delay_lt_iff]
    have hwithin : r.procDelay.toInt ≤ x.receive - x.send := by
      linarith [x.delay_le, x.send_le, x.arrive_le, x.read_le, x.depart_le]
    have hrate := mul_le_mul_of_nonneg_left hwithin (sub_nonneg.mpr hdrift)
    linarith [x.clock.elapsed_ge hreceive, x.sent.le, x.received.lt]

theorem drifted_le (indeterminate : BitVec 32 × BitVec 32)
    (hne : params.maxDriftReciprocal ≠ 0) (hle : r.Tsend.toInt ≤ r.Tsync.toInt) :
    params.maxDriftReciprocal.toInt * r.drifted params indeterminate ≤ r.Tsync.toInt - r.Tsend.toInt := by
  obtain ⟨hpos, hsmall, -⟩ := reciprocal_bounds hne
  obtain ⟨hover, hquot⟩ := edivTime_spec indeterminate (UTCsub r.Tsync r.Tsend) params.maxDriftReciprocal
  have hdrifted : r.drifted params indeterminate < 2 ^ 31 := BitVec.toInt_lt
  obtain hshort | hlong := lt_or_ge (r.Tsync.toInt - r.Tsend.toInt) (params.maxDriftReciprocal.toInt * 2 ^ 31)
  · have hbase : (UTCsub r.Tsync r.Tsend).toInt = r.Tsync.toInt - r.Tsend.toInt := by
      rw [UTCsub, ← BitVec.ofInt_toInt (x := r.Tsync), ← BitVec.ofInt_toInt (x := r.Tsend), ← ofInt_sub,
        toInt_ofInt_of_inRange, BitVec.ofInt_toInt, BitVec.ofInt_toInt]
      exact ⟨by omega, by omega⟩
    rw [hbase, Int.tdiv_eq_ediv_of_nonneg (by omega)] at hover hquot
    have hdivlt : (r.Tsync.toInt - r.Tsend.toInt) / params.maxDriftReciprocal.toInt < 2 ^ 31 :=
      Int.ediv_lt_of_lt_mul (by omega) (by rw [Int.mul_comm]; exact hshort)
    have hdivnonneg : 0 ≤ (r.Tsync.toInt - r.Tsend.toInt) / params.maxDriftReciprocal.toInt :=
      Int.ediv_nonneg (by omega) (by omega)
    rw [Response.drifted, hquot (hover.mpr ⟨hne, by omega, hdivlt⟩)]
    exact Int.mul_ediv_self_le (by omega)
  · calc params.maxDriftReciprocal.toInt * r.drifted params indeterminate
        ≤ params.maxDriftReciprocal.toInt * 2 ^ 31 := Int.mul_le_mul_of_nonneg_left hdrifted.le (by omega)
      _ ≤ r.Tsync.toInt - r.Tsend.toInt := hlong

theorem exists_exchange (h : r.Possible params) (loss spare length total turn : ℝ)
    (hloss : 0 ≤ loss) (hdrift : loss ≤ params.drift) (hspare : 0 < spare) (hstep : spare ≤ params.step)
    (hlength : r.procDelay.toInt ≤ length) (htotal : length ≤ total) (hturn : length ≤ turn)
    (hrec : length - loss * length = r.Trec.toInt - r.Tsend.toInt + params.step - spare)
    (hsync : total - loss * min total turn = r.Tsync.toInt - r.Tsend.toInt + params.step - spare) :
    ∃ x : Exchange params r, x.sync = r.Tresp.toInt + r.Iresp.toNat + total := by
  have hdelay : (0 : ℝ) ≤ r.procDelay.toInt := by exact_mod_cast h.delay_nonneg
  have htruncated {T : UTCValue} (hT : T ∈ [r.Tsend, r.Trec, r.Tsync]) {value : ℝ} (hle : (T.toInt : ℝ) ≤ value)
      (hlt : value < T.toInt + params.step) : Truncated params.step value T.toInt :=
    ⟨hle, hlt, multiple_iff.mpr (h.multiples T hT)⟩
  generalize hmid : (r.Tresp.toInt + r.Iresp.toNat : ℝ) = mid
  let clock := Clock.slowUntil hloss hdrift (mid + turn) (r.Tsend.toInt - mid + loss * mid)
  have hread (a : ℝ) : clock.read (mid + a) = r.Tsend.toInt + a - loss * min a turn := by
    rw [Clock.slowUntil_read, min_add_add_left]
    ring
  have hsent := hread 0
  have hreceived := hread length
  have hsynchronized := hread total
  rw [min_eq_left (by linarith), add_zero] at hsent
  rw [min_eq_left hturn] at hreceived
  refine ⟨{
    send := mid
    arrive := mid
    read := mid
    depart := mid + length
    receive := mid + length
    sync := mid + total
    send_le := le_refl _
    arrive_le := le_refl _
    read_le := by linarith
    depart_le := le_refl _
    receive_le := by linarith
    clock := clock
    sent := htruncated (by simp) (by linarith) (by linarith)
    received := htruncated (by simp) (by linarith) (by linarith)
    synchronized := htruncated (by simp) (by linarith) (by linarith)
    contains := fun _ => ?_
    delay_nonneg := h.delay_nonneg
    delay_le := by linarith }, rfl⟩
  rw [near_iff, ← hmid]
  have hinacc : (0 : ℝ) ≤ r.Iresp.toNat := Nat.cast_nonneg _
  constructor <;> linarith

theorem step_pos (h : r.Possible params) : 0 < params.step := by
  have hpos : (0 : ℝ) < params.clockResolution.toNat := by exact_mod_cast h.resolution_pos
  exact div_pos hpos (by norm_num)

theorem late_exchange (h : r.Possible params) (hne : params.maxDriftReciprocal ≠ 0)
    {allowance : ℤ} (hallowance : params.maxDriftReciprocal.toInt * allowance ≤ r.Tsync.toInt - r.Tsend.toInt) :
    ∃ x : Exchange params r, r.Tresp.toInt + r.Iresp.toNat + (r.Tsync.toInt - r.Tsend.toInt) + allowance < x.sync := by
  obtain ⟨hpos, -, hdrift, -, hnext⟩ := reciprocal_bounds hne
  have hposReal : (1 : ℝ) ≤ params.maxDriftReciprocal.toInt := by exact_mod_cast hpos
  have hdriftpos : 0 < params.drift := by
    by_contra hle
    have hprod := mul_nonpos_of_nonneg_of_nonpos (show (0 : ℝ) ≤ params.maxDriftReciprocal.toInt + 1 by linarith)
      (not_lt.mp hle)
    linarith
  have hstep := step_pos h
  have hdelay := delay_lt_iff.mpr h.delay_lt
  have hwait : (0 : ℝ) ≤ r.procDelay.toInt := by exact_mod_cast h.delay_nonneg
  have hsend : (r.Tsend.toInt : ℝ) ≤ r.Trec.toInt := by exact_mod_cast h.send_le
  have hreceive : (r.Trec.toInt : ℝ) ≤ r.Tsync.toInt := by exact_mod_cast h.receive_le
  -- on the slowest clock the time that passes is more than the allowance
  have hslow : (1 - params.drift) * (r.Tsync.toInt - r.Tsend.toInt + allowance) <
      r.Tsync.toInt - r.Tsend.toInt + params.step := by
    have hshare : (params.maxDriftReciprocal.toInt : ℝ) * allowance ≤ r.Tsync.toInt - r.Tsend.toInt := by
      exact_mod_cast hallowance
    have hscaled : (params.maxDriftReciprocal.toInt : ℝ) *
        ((1 - params.drift) * (r.Tsync.toInt - r.Tsend.toInt + allowance)) ≤
          params.maxDriftReciprocal.toInt * (r.Tsync.toInt - r.Tsend.toInt) := by
      calc (params.maxDriftReciprocal.toInt : ℝ) * ((1 - params.drift) * (r.Tsync.toInt - r.Tsend.toInt + allowance))
          = (1 - params.drift) * (params.maxDriftReciprocal.toInt * (r.Tsync.toInt - r.Tsend.toInt) +
              params.maxDriftReciprocal.toInt * allowance) := by ring
        _ ≤ (1 - params.drift) * (params.maxDriftReciprocal.toInt * (r.Tsync.toInt - r.Tsend.toInt) +
              (r.Tsync.toInt - r.Tsend.toInt)) := mul_le_mul_of_nonneg_left (by linarith) (by linarith)
        _ = (params.maxDriftReciprocal.toInt + 1 - (params.maxDriftReciprocal.toInt + 1) * params.drift) *
              (r.Tsync.toInt - r.Tsend.toInt) := by ring
        _ ≤ params.maxDriftReciprocal.toInt * (r.Tsync.toInt - r.Tsend.toInt) :=
            mul_le_mul_of_nonneg_right (by linarith) (by linarith)
    have hcancel := le_of_mul_le_mul_left hscaled (by linarith)
    linarith
  -- so it is on a clock that is a little faster, and does not stand still
  obtain ⟨rate, spare, hslowest, hrate, hfastest, hspare, hsparele, hwaits, hlate⟩ :=
    exists_rate (sub_nonneg.mpr hdrift) (sub_lt_self 1 hdriftpos) hdelay hslow hstep
  obtain ⟨x, hx⟩ := exists_exchange h (1 - rate) spare ((r.Trec.toInt - r.Tsend.toInt + params.step - spare) / rate)
    ((r.Tsync.toInt - r.Tsend.toInt + params.step - spare) / rate)
    ((r.Tsync.toInt - r.Tsend.toInt + params.step - spare) / rate) (by linarith) (by linarith) hspare hsparele
    (by rw [le_div_iff₀ hrate]; linarith) (div_le_div_of_nonneg_right (by linarith) hrate.le)
    (div_le_div_of_nonneg_right (by linarith) hrate.le) (by field_simp; ring) (by rw [min_self]; field_simp; ring)
  have htotal : (r.Tsync.toInt : ℝ) - r.Tsend.toInt + allowance <
      (r.Tsync.toInt - r.Tsend.toInt + params.step - spare) / rate := by
    rw [lt_div_iff₀ hrate]
    linarith
  exact ⟨x, by linarith⟩

theorem early_exchange (h : r.Possible params) :
    ∃ x : Exchange params r, x.sync ≤ r.Tresp.toInt + r.Iresp.toNat + (r.Tsync.toInt - r.Trec.toInt) +
      max (r.procDelay.toInt : ℝ) (r.Trec.toInt - r.Tsend.toInt + params.step) := by
  have hstep := step_pos h
  have hdelay := delay_lt_iff.mpr h.delay_lt
  have hsend : (r.Tsend.toInt : ℝ) ≤ r.Trec.toInt := by exact_mod_cast h.send_le
  have hreceive : (r.Trec.toInt : ℝ) ≤ r.Tsync.toInt := by exact_mod_cast h.receive_le
  have hdriftnonneg : 0 ≤ params.drift := div_nonneg (Nat.cast_nonneg _) (by norm_num)
  obtain ⟨spare, hspare, hsparele, hwaits⟩ : ∃ spare : ℝ, 0 < spare ∧ spare ≤ params.step / 2 ∧
      (1 - params.drift) * r.procDelay.toInt ≤ r.Trec.toInt - r.Tsend.toInt + params.step - spare := by
    refine ⟨min (params.step / 2) (r.Trec.toInt - r.Tsend.toInt + params.step - (1 - params.drift) * r.procDelay.toInt),
      lt_min (half_pos hstep) (sub_pos.mpr hdelay), min_le_left _ _, ?_⟩
    linarith [min_le_right (params.step / 2)
      (r.Trec.toInt - r.Tsend.toInt + params.step - (1 - params.drift) * r.procDelay.toInt)]
  generalize hshown : (r.Trec.toInt - r.Tsend.toInt + params.step - spare : ℝ) = shown at *
  have hshownpos : 0 < shown := by linarith
  have hlengthpos : 0 < max (r.procDelay.toInt : ℝ) shown := lt_max_of_lt_right hshownpos
  have hlength := le_max_left (r.procDelay.toInt : ℝ) shown
  have hlength' := le_max_right (r.procDelay.toInt : ℝ) shown
  have hslow : (1 - params.drift) * max (r.procDelay.toInt : ℝ) shown ≤ shown := by
    obtain hmax | hmax := max_choice (r.procDelay.toInt : ℝ) shown <;> rw [hmax]
    · exact hwaits
    · exact mul_le_of_le_one_left hshownpos.le (by linarith)
  have hlimit : max (r.procDelay.toInt : ℝ) shown ≤
      max (r.procDelay.toInt : ℝ) (r.Trec.toInt - r.Tsend.toInt + params.step) := max_le_max_left _ (by linarith)
  generalize max (r.procDelay.toInt : ℝ) shown = length at *
  have hquot : shown / length * length = shown := div_mul_cancel₀ _ hlengthpos.ne'
  obtain ⟨x, hx⟩ := exists_exchange h (1 - shown / length) spare length (length + (r.Tsync.toInt - r.Trec.toInt)) length
    (sub_nonneg.mpr ((div_le_one hlengthpos).mpr hlength'))
    (by rw [sub_le_comm, le_div_iff₀ hlengthpos]; exact hslow) hspare (by linarith) hlength (by linarith) le_rfl
    (by linarith) (by rw [min_eq_right (by linarith)]; linarith)
  exact ⟨x, by linarith⟩

theorem estimate_last (indeterminate : BitVec 32 × BitVec 32) {Tserv : UTCValue}
    {Iserv : ExtInacc}
    (hTserv : Tserv = BitVec.ofInt 64 (r.Tresp.toInt - r.half params + r.procDelay.toNat / 2 - r.Tsend.toInt + r.Tsync.toInt))
    (hIserv : Iserv = BitVec.ofInt 64
      (r.Iresp.toNat + r.half params - r.procDelay.toNat / 2 + r.drifted params indeterminate)) :
    ∃ k : ℤ, Tserv.toInt + Iserv.toNat = r.Tresp.toInt + r.Iresp.toNat + (r.Tsync.toInt - r.Tsend.toInt) +
      r.drifted params indeterminate + k * 2 ^ 64 := by
  obtain ⟨k, hmid⟩ : ∃ k : ℤ, Tserv.toInt + 2 ^ 64 * k =
      r.Tresp.toInt - r.half params + r.procDelay.toNat / 2 - r.Tsend.toInt + r.Tsync.toInt := by
    rw [hTserv, BitVec.toInt_ofInt]
    exact ⟨_, Int.bmod_add_bdiv _ _⟩
  obtain ⟨k', hinacc⟩ : ∃ k : ℤ, Iserv.toNat + 2 ^ 64 * k =
      r.Iresp.toNat + r.half params - r.procDelay.toNat / 2 + r.drifted params indeterminate := by
    have hnonneg := Int.emod_nonneg (r.Iresp.toNat + r.half params - r.procDelay.toNat / 2 + r.drifted params indeterminate)
      (show ((2 ^ 64 : ℕ) : ℤ) ≠ 0 by norm_num)
    rw [hIserv, BitVec.toNat_ofInt, Int.toNat_of_nonneg hnonneg]
    exact ⟨_, Int.emod_add_mul_ediv _ _⟩
  exact ⟨-k - k', by linarith⟩

theorem exists_missed {indeterminate : BitVec 32 × BitVec 32} (h : r.Possible params)
    (hfits : r.DriftFits params) {Tserv : UTCValue} {Iserv : ExtInacc} (hfinite : IsInfiniteInacc Iserv = false)
    (hTserv : Tserv = BitVec.ofInt 64 (r.Tresp.toInt - r.half params + r.procDelay.toNat / 2 - r.Tsend.toInt + r.Tsync.toInt))
    (hIserv : Iserv = BitVec.ofInt 64
      (r.Iresp.toNat + r.half params - r.procDelay.toNat / 2 + r.drifted params indeterminate)) :
    ∃ x : Exchange params r, ¬ Near (Tserv.toInt : ℝ) Iserv.toNat x.sync := by
  obtain ⟨k, hlast⟩ := estimate_last indeterminate hTserv hIserv
  have hlastReal : (Tserv.toInt : ℝ) + Iserv.toNat = r.Tresp.toInt + r.Iresp.toNat + (r.Tsync.toInt - r.Tsend.toInt) +
      r.drifted params indeterminate + k * 2 ^ 64 := by exact_mod_cast hlast
  obtain hk | hk := lt_or_ge 0 k
  · -- the time is estimated a period or more too late
    obtain ⟨x, hx⟩ := early_exchange h
    refine ⟨x, fun hnear => ?_⟩
    obtain ⟨hlow, -⟩ := near_iff.mp hnear
    have hkReal : (1 : ℝ) ≤ k := by exact_mod_cast hk
    have hsmall : Iserv.toNat < 2 ^ 48 := by
      rw [← Bool.not_eq_true, IsInfiniteInacc_iff] at hfinite
      omega
    have hsmallReal : (Iserv.toNat : ℝ) < 2 ^ 48 := by exact_mod_cast hsmall
    have hdrifted : -2 ^ 31 ≤ r.drifted params indeterminate := BitVec.le_toInt _
    have hdriftedReal : (-2 ^ 31 : ℝ) ≤ r.drifted params indeterminate := by exact_mod_cast hdrifted
    have hdelay : r.procDelay.toInt < 2 ^ 63 := BitVec.toInt_lt
    have hdelayReal : (r.procDelay.toInt : ℝ) < 2 ^ 63 := by exact_mod_cast hdelay
    have hsend : (r.Tsend.toInt : ℝ) ≤ r.Trec.toInt := by exact_mod_cast h.send_le
    have hstep : params.step < 2 ^ 32 := by
      have hlt : (params.clockResolution.toNat : ℝ) < 2 ^ 32 := by exact_mod_cast params.clockResolution.isLt
      rw [clockParams.step]
      linarith
    have hbound : max (r.procDelay.toInt : ℝ) (r.Trec.toInt - r.Tsend.toInt + params.step) <
        r.Trec.toInt - r.Tsend.toInt + 2 ^ 63 := max_lt (by linarith) (by linarith)
    linarith
  · obtain ⟨x, hx⟩ := late_exchange h hfits.reciprocal_ne (drifted_le indeterminate hfits.reciprocal_ne (h.send_le.trans h.receive_le))
    refine ⟨x, fun hnear => ?_⟩
    obtain ⟨-, hhigh⟩ := near_iff.mp hnear
    have hkReal : (k : ℝ) ≤ 0 := by exact_mod_cast hk
    linarith

/-- The true time at the synchronization is within the estimate for exactly the responses whose readings no exchange gives,
    and those for which a leap second is allowed for, no estimate is made or its inaccuracy is infinite. -/
theorem server_time_estimated_iff (params : clockParams) (nextLS : UTCValue) (indeterminate : BitVec 32 × BitVec 32)
    (r : Response) :
    (∀ x : Exchange params r, r.leapSecond nextLS = false → ∀ Tserv Iserv,
      EstimateServerTime params nextLS indeterminate r = .ok (Tserv, Iserv) →
        IsInfiniteInacc Iserv = true ∨ Near (Tserv.toInt : ℝ) Iserv.toNat x.sync) ↔
      ¬ r.Possible params ∨ r.leapSecond nextLS = true ∨ ¬ r.DriftFits params ∨ ¬ r.Finite params indeterminate := by
  constructor
  · intro hsound
    by_contra hnone
    push Not at hnone
    obtain ⟨hpossible, hleap, hfits, hfinite⟩ := hnone
    have hleap := Bool.eq_false_of_not_eq_true hleap
    obtain ⟨Tserv, Iserv, hcall, hTserv, hiff, hIserv⟩ := estimate_ok indeterminate hfits hleap
    have hinacc := hiff.mp hfinite
    obtain ⟨x, hmissed⟩ := exists_missed hpossible hfits hinacc hTserv (hIserv hinacc)
    obtain hinf | hnear := hsound x hleap Tserv Iserv hcall
    · exact nomatch hinf.symm.trans hinacc
    · exact hmissed hnear
  · intro hcond x hleap Tserv Iserv hcall
    by_cases hfits : r.DriftFits params
    · obtain ⟨Tserv', Iserv', hcall', -, hiff, -⟩ := estimate_ok indeterminate hfits hleap
      obtain ⟨rfl, rfl⟩ := Prod.mk.inj (Except.ok.inj (hcall.symm.trans hcall'))
      obtain hpossible | hleap' | hnot | hfinite := hcond
      · exact absurd (x.possible (reciprocal_bounds hfits.reciprocal_ne).2.2.1) hpossible
      · exact nomatch hleap'.symm.trans hleap
      · exact absurd hfits hnot
      · left
        rwa [hiff, Bool.not_eq_false] at hfinite
    · obtain ⟨failure, herror⟩ := estimate_error nextLS indeterminate hfits
      exact nomatch hcall.symm.trans herror

def tenMilliseconds : clockParams := { clockResolution := 10000000, clockDrift := 100000 }

def sameStep : Response :=
  { Tsend := 0, Tresp := 0, Iresp := 10000, procDelay := 0, Trec := 0, Tsync := 0, Isync := 0 }

theorem tenMilliseconds_step : tenMilliseconds.step = 100000 := by
  have hres : tenMilliseconds.clockResolution.toNat = 10000000 := rfl
  rw [clockParams.step, hres]
  norm_num

theorem truncated_zero {value : ℝ} (hle : 0 ≤ value) (hlt : value < 100000) :
    Truncated tenMilliseconds.step value ((0 : UTCValue).toInt : ℝ) := by
  have hzero : (0 : UTCValue).toInt = 0 := rfl
  rw [tenMilliseconds_step, hzero, Int.cast_zero]
  exact ⟨hle, by linarith, 0, by simp⟩

/-- The server is 1 ms behind and the synchronization is almost 10 ms after its reading. -/
noncomputable def almostTenMilliseconds : Exchange tenMilliseconds sameStep where
  send := 10000
  arrive := 10000
  read := 10000
  depart := 10000
  receive := 109999
  sync := 109999
  send_le := le_rfl
  arrive_le := le_rfl
  read_le := le_rfl
  depart_le := by norm_num
  receive_le := le_rfl
  clock := {
    read := fun t => t - 10000
    bounded := fun a b h => by
      have hexact : b - 10000 - (a - 10000) - (b - a) = 0 := by ring
      rw [hexact, abs_zero]
      exact mul_nonneg (div_nonneg (Nat.cast_nonneg _) (by norm_num)) (sub_nonneg.mpr h) }
  sent := truncated_zero (by norm_num) (by norm_num)
  received := truncated_zero (by norm_num) (by norm_num)
  synchronized := truncated_zero (by norm_num) (by norm_num)
  contains := fun _ => by
    have hTresp : sameStep.Tresp.toInt = 0 := rfl
    have hIresp : sameStep.Iresp.toNat = 10000 := rfl
    rw [hTresp, hIresp, near_iff]
    norm_num
  delay_nonneg := by decide
  delay_le := by
    have hdelay : sameStep.procDelay.toInt = 0 := rfl
    rw [hdelay]
    norm_num

/-- The resolution is not allowed for at the synchronization. -/
theorem resolution_missed : ¬ ∀ (params : clockParams) (nextLS : UTCValue) (indeterminate : BitVec 32 × BitVec 32)
    (r : Response) (x : Exchange params r), r.leapSecond nextLS = false → ∀ Tserv Iserv,
      EstimateServerTime params nextLS indeterminate r = .ok (Tserv, Iserv) →
        IsInfiniteInacc Iserv = true ∨ Near (Tserv.toInt : ℝ) Iserv.toNat x.sync := by
  intro hsound
  have hfits : sameStep.DriftFits tenMilliseconds := ⟨by decide, by decide, by decide, by decide⟩
  have hleap : sameStep.leapSecond 0x4000000000000000 = false := by decide
  obtain ⟨Tserv, Iserv, hcall, hTserv, hiff, hIserv⟩ := estimate_ok (0, 0) hfits hleap
  have hspec := edivTime_spec (0, 0) (UTCsub sameStep.Tsync sameStep.Tsend) tenMilliseconds.maxDriftReciprocal
  have hdrifted : sameStep.drifted tenMilliseconds (0, 0) = 0 := hspec.2 (hspec.1.mpr (by decide))
  have hhalf : sameStep.half tenMilliseconds = 50005 := by decide
  rw [Response.Finite, hhalf, hdrifted] at hiff
  rw [hhalf, hdrifted] at hIserv
  rw [hhalf] at hTserv
  have hfinite := hiff.mp (by decide)
  have hmid : Tserv.toInt = -50005 := by rw [hTserv]; decide
  have hinacc : Iserv.toNat = 60005 := by rw [hIserv hfinite]; decide
  obtain hinf | hnear := hsound tenMilliseconds _ (0, 0) sameStep almostTenMilliseconds hleap Tserv Iserv hcall
  · exact nomatch hinf.symm.trans hfinite
  · rw [hmid, hinacc, near_iff] at hnear
    norm_num [almostTenMilliseconds] at hnear

end dce.dts
