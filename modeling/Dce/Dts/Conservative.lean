import Dce.Dts.Product

namespace dce.dts

open lib

/-- The sixteen bytes are a time with its inaccuracy. -/
def Reads (order : ByteOrder) (utc : utc_t) (timevalue inaccvalue : UTCValue) : Prop :=
  ∃ tdf, utc_comptime ⟨order, .b32⟩ utc = .ok (timevalue, inaccvalue, tdf)

def Within (timevalue inaccvalue : UTCValue) (x : ℝ) : Prop :=
  IsInfiniteInacc inaccvalue = true ∨ Near (timevalue.toInt : ℝ) inaccvalue.toNat x

/-- The instants of the interval that the sixteen bytes stand for. -/
def instants (order : ByteOrder) (utc : utc_t) : Set ℝ :=
  {x | ∃ timevalue inaccvalue, Reads order utc timevalue inaccvalue ∧ Within timevalue inaccvalue x}

def HasInfiniteInacc (order : ByteOrder) (utc : utc_t) : Prop :=
  ∃ timevalue inaccvalue, Reads order utc timevalue inaccvalue ∧ IsInfiniteInacc inaccvalue = true

/-- Whenever the call succeeds, the interval of its result has the given instants, and is infinite if the arguments are. -/
structure Conservative (order : ByteOrder) (call : Except Failure utc_t) (image : Set ℝ) (infinite : Prop) : Prop where
  contains : ∀ result, call = .ok result → image ⊆ instants order result
  infinite : ∀ result, call = .ok result → infinite → HasInfiniteInacc order result

variable {order : ByteOrder} {utc : utc_t} {time inacc time' inacc' : UTCValue}

section

variable (h : Reads order utc time inacc)

include h

theorem Reads.unique (h' : Reads order utc time' inacc') : time' = time ∧ inacc' = inacc := by
  obtain ⟨tdf, h⟩ := h
  obtain ⟨tdf', h'⟩ := h'
  rw [h] at h'
  simp only [Except.ok.injEq, Prod.mk.injEq] at h'
  exact ⟨h'.1.symm, h'.2.1.symm⟩

theorem Reads.mem_instants {x : ℝ} : x ∈ instants order utc ↔ Within time inacc x := by
  constructor
  · rintro ⟨time', inacc', hreads, hx⟩
    obtain ⟨rfl, rfl⟩ := h.unique hreads
    exact hx
  · exact fun hx => ⟨time, inacc, h, hx⟩

theorem Reads.hasInfiniteInacc : HasInfiniteInacc order utc ↔ IsInfiniteInacc inacc = true := by
  constructor
  · rintro ⟨time', inacc', hreads, hinf⟩
    obtain ⟨rfl, rfl⟩ := h.unique hreads
    exact hinf
  · exact fun hinf => ⟨time, inacc, h, hinf⟩

theorem Reads.inacc_le : inacc.toNat ≤ 2 ^ 48 - 1 := by
  obtain ⟨tdf, h⟩ := h
  simp only [utc_comptime, bind, Except.bind] at h
  split at h
  case h_1 => simp at h
  case h_2 members hmembers =>
    cases hinf : IsInfiniteInacc members.2.1 with
    | true =>
      simp only [hinf, ↓reduceIte, UTCassign, Except.ok.injEq, Prod.mk.injEq] at h
      rw [← h.2.1]
      decide
    | false =>
      simp only [hinf, Bool.false_eq_true, ↓reduceIte, Except.ok.injEq, Prod.mk.injEq] at h
      rw [← Bool.not_eq_true, IsInfiniteInacc_iff] at hinf
      rw [← h.2.1]
      exact (Nat.lt_of_not_le hinf).le

end

theorem within_self (time inacc : UTCValue) : Within time inacc time.toInt := Or.inr (near_self (Nat.cast_nonneg _))

theorem IsInfiniteInacc_givenInacc_some (inacc : UTCValue) : IsInfiniteInacc (givenInacc (some inacc)) = IsInfiniteInacc inacc := by
  cases h : IsInfiniteInacc inacc <;> simp only [givenInacc, h, ↓reduceIte, Bool.false_eq_true]
  decide

theorem within_givenInacc {x : ℝ} : Within time (givenInacc (some inacc)) x ↔ Within time inacc x := by
  rw [Within, Within, IsInfiniteInacc_givenInacc_some]
  cases h : IsInfiniteInacc inacc <;> simp [givenInacc, h]

theorem reads_mkcomptime (time : UTCValue) (inaccvalue : Option UTCValue) (tdf : ℤ) :
    ∃ result, utc_mkcomptime ⟨order, .b32⟩ time inaccvalue tdf = .ok result ∧ Reads order result time (givenInacc inaccvalue) := by
  refine ⟨_, utc_mkcomptime_long32 order time inaccvalue tdf,
    (BitVec.ofInt 12 (tdf.tdiv SECS_PER_MIN)).toInt * SECS_PER_MIN, ?_⟩
  rw [utc_comptime_long32, setWidth_givenInacc]

theorem conservative_mkcomptime_iff {inaccvalue : Option UTCValue} {tdf : ℤ} {image : Set ℝ} {infinite : Prop} :
    Conservative order (utc_mkcomptime ⟨order, .b32⟩ time inaccvalue tdf) image infinite ↔
      (∀ x ∈ image, Within time (givenInacc inaccvalue) x) ∧ (infinite → IsInfiniteInacc (givenInacc inaccvalue) = true) := by
  obtain ⟨result, hcall, hreads⟩ := reads_mkcomptime time inaccvalue tdf
  constructor
  · intro h
    exact ⟨fun x hx => hreads.mem_instants.mp (h.contains result hcall hx),
      fun hinf => hreads.hasInfiniteInacc.mp (h.infinite result hcall hinf)⟩
  · rintro ⟨hcontains, hinfinite⟩
    refine ⟨fun result' hresult x hx => ?_, fun result' hresult hinf => ?_⟩ <;> rw [hcall] at hresult <;>
      obtain rfl := Except.ok.inj hresult
    · exact hreads.mem_instants.mpr (hcontains x hx)
    · exact hreads.hasInfiniteInacc.mpr (hinfinite hinf)

theorem conservative_error {failure : Failure} {image : Set ℝ} {infinite : Prop} :
    Conservative order (.error failure) image infinite :=
  ⟨fun _ hcall => (nomatch hcall), fun _ hcall => (nomatch hcall)⟩

theorem conservative_sum_iff {inacc1 inacc2 : UTCValue} {tdf sum : ℤ} {image : Set ℝ} {infinite : Prop}
    (hle1 : inacc1.toNat ≤ 2 ^ 48 - 1) (hle2 : inacc2.toNat ≤ 2 ^ 48 - 1) (hsum : (sum : ℝ) ∈ image)
    (hnear : ∀ x ∈ image, IsInfiniteInacc inacc1 = true ∨ IsInfiniteInacc inacc2 = true ∨
      Near (sum : ℝ) (inacc1.toNat + inacc2.toNat) x)
    (hinfinite : infinite → IsInfiniteInacc inacc1 = true ∨ IsInfiniteInacc inacc2 = true) :
    Conservative order (utc_mkcomptime ⟨order, .b32⟩ (BitVec.ofInt 64 sum)
      (some (if IsInfiniteInacc inacc1 || IsInfiniteInacc inacc2 then K_INFINITE_INACC else UTCadd inacc1 inacc2)) tdf)
      image infinite ↔ 2 ^ 48 - 1 ≤ inacc1.toNat + inacc2.toNat ∨ InRange sum := by
  have hadd : (UTCadd inacc1 inacc2).toNat = inacc1.toNat + inacc2.toNat := by
    rw [UTCadd, BitVec.toNat_add]
    omega
  have hinf : IsInfiniteInacc
      (if IsInfiniteInacc inacc1 || IsInfiniteInacc inacc2 then K_INFINITE_INACC else UTCadd inacc1 inacc2) = true ↔
      2 ^ 48 - 1 ≤ inacc1.toNat + inacc2.toNat := by
    split
    case isTrue h =>
      rw [Bool.or_eq_true, IsInfiniteInacc_iff, IsInfiniteInacc_iff] at h
      have htop : IsInfiniteInacc K_INFINITE_INACC = true := by decide
      simp only [htop, true_iff]
      omega
    case isFalse h => rw [IsInfiniteInacc_iff, hadd]
  rw [conservative_mkcomptime_iff, IsInfiniteInacc_givenInacc_some, hinf]
  constructor
  · rintro ⟨hcontains, -⟩
    by_contra hno
    push Not at hno
    obtain ⟨hfinite, hrange⟩ := hno
    have hbool : (IsInfiniteInacc inacc1 || IsInfiniteInacc inacc2) = false := by
      rw [Bool.or_eq_false_iff, ← Bool.not_eq_true, ← Bool.not_eq_true, IsInfiniteInacc_iff, IsInfiniteInacc_iff]
      omega
    have hwithin := within_givenInacc.mp (hcontains _ hsum)
    rw [Within, hinf, hbool] at hwithin
    obtain hlarge | hclose := hwithin
    · omega
    · simp only [Bool.false_eq_true, ↓reduceIte] at hclose
      rw [near_intCast_iff, hadd] at hclose
      obtain hfar | hfar := far_of_not_inRange hrange <;> omega
  · intro h
    refine ⟨fun x hx => within_givenInacc.mpr ?_, fun hinfin => ?_⟩
    · by_cases hlarge : 2 ^ 48 - 1 ≤ inacc1.toNat + inacc2.toNat
      · exact Or.inl (hinf.mpr hlarge)
      · have hbool : (IsInfiniteInacc inacc1 || IsInfiniteInacc inacc2) = false := by
          rw [Bool.or_eq_false_iff, ← Bool.not_eq_true, ← Bool.not_eq_true, IsInfiniteInacc_iff, IsInfiniteInacc_iff]
          omega
        have hrange := h.resolve_left hlarge
        obtain h1 | h2 | hclose := hnear x hx
        · simp [h1] at hbool
        · simp [h2] at hbool
        · right
          rw [toInt_ofInt_of_inRange hrange, hbool]
          simp only [Bool.false_eq_true, ↓reduceIte, hadd, Nat.cast_add]
          exact hclose
    · have h12 := hinfinite hinfin
      rw [IsInfiniteInacc_iff, IsInfiniteInacc_iff] at h12
      omega

theorem addtime_conservative_iff {a b : utc_t} {t1 i1 t2 i2 : UTCValue} (ha : Reads order a t1 i1) (hb : Reads order b t2 i2) :
    Conservative order (utc_addtime order a b) {z | ∃ x ∈ instants order a, ∃ y ∈ instants order b, z = x + y}
      (HasInfiniteInacc order a ∨ HasInfiniteInacc order b) ↔
    2 ^ 48 - 1 ≤ i1.toNat + i2.toNat ∨ InRange (t1.toInt + t2.toInt) := by
  have hinfinite := or_congr ha.hasInfiniteInacc hb.hasInfiniteInacc
  have hcentre : ((t1.toInt + t2.toInt : ℤ) : ℝ) ∈ {z | ∃ x ∈ instants order a, ∃ y ∈ instants order b, z = x + y} :=
    ⟨t1.toInt, ha.mem_instants.mpr (within_self t1 i1), t2.toInt, hb.mem_instants.mpr (within_self t2 i2), by push_cast; rfl⟩
  have hnear : ∀ z ∈ {z | ∃ x ∈ instants order a, ∃ y ∈ instants order b, z = x + y}, IsInfiniteInacc i1 = true ∨
      IsInfiniteInacc i2 = true ∨ Near ((t1.toInt + t2.toInt : ℤ) : ℝ) (i1.toNat + i2.toNat) z := by
    rintro _ ⟨x, hx, y, hy, rfl⟩
    obtain hinf | hx := ha.mem_instants.mp hx
    · exact Or.inl hinf
    obtain hinf | hy := hb.mem_instants.mp hy
    · exact Or.inr (Or.inl hinf)
    · push_cast
      exact Or.inr (Or.inr (hx.add hy))
  have htime : BitVec.ofInt 64 (t1.toInt + t2.toInt) = UTCadd t1 t2 := by
    rw [BitVec.ofInt_add, BitVec.ofInt_toInt, BitVec.ofInt_toInt, UTCadd]
  have hiff (tdf : ℤ) := @conservative_sum_iff order _ _ tdf _ _ _ ha.inacc_le hb.inacc_le hcentre hnear hinfinite.mp
  obtain ⟨tdf, ha⟩ := ha
  obtain ⟨_, hb⟩ := hb
  rw [← hiff tdf, htime, utc_addtime, bind_of_ok _ ha]
  dsimp only
  rw [bind_of_ok _ hb]

theorem subtime_conservative_iff {a b : utc_t} {t1 i1 t2 i2 : UTCValue} (ha : Reads order a t1 i1) (hb : Reads order b t2 i2) :
    Conservative order (utc_subtime order a b) {z | ∃ x ∈ instants order a, ∃ y ∈ instants order b, z = x - y}
      (HasInfiniteInacc order a ∨ HasInfiniteInacc order b) ↔
    2 ^ 48 - 1 ≤ i1.toNat + i2.toNat ∨ InRange (t1.toInt - t2.toInt) := by
  have hinfinite := or_congr ha.hasInfiniteInacc hb.hasInfiniteInacc
  have hcentre : ((t1.toInt - t2.toInt : ℤ) : ℝ) ∈ {z | ∃ x ∈ instants order a, ∃ y ∈ instants order b, z = x - y} :=
    ⟨t1.toInt, ha.mem_instants.mpr (within_self t1 i1), t2.toInt, hb.mem_instants.mpr (within_self t2 i2), by push_cast; rfl⟩
  have hnear : ∀ z ∈ {z | ∃ x ∈ instants order a, ∃ y ∈ instants order b, z = x - y}, IsInfiniteInacc i1 = true ∨
      IsInfiniteInacc i2 = true ∨ Near ((t1.toInt - t2.toInt : ℤ) : ℝ) (i1.toNat + i2.toNat) z := by
    rintro _ ⟨x, hx, y, hy, rfl⟩
    obtain hinf | hx := ha.mem_instants.mp hx
    · exact Or.inl hinf
    obtain hinf | hy := hb.mem_instants.mp hy
    · exact Or.inr (Or.inl hinf)
    · push_cast
      exact Or.inr (Or.inr (hx.sub hy))
  have htime : BitVec.ofInt 64 (t1.toInt - t2.toInt) = UTCsub t1 t2 := by
    rw [ofInt_sub, BitVec.ofInt_toInt, BitVec.ofInt_toInt, UTCsub]
  have hiff (tdf : ℤ) := @conservative_sum_iff order _ _ tdf _ _ _ ha.inacc_le hb.inacc_le hcentre hnear hinfinite.mp
  obtain ⟨tdf, ha⟩ := ha
  obtain ⟨_, hb⟩ := hb
  rw [← hiff tdf, htime, utc_subtime, bind_of_ok _ ha]
  dsimp only
  rw [bind_of_ok _ hb]

theorem abstime_conservative {a : utc_t} {t1 i1 : UTCValue} (ha : Reads order a t1 i1) :
    Conservative order (utc_abstime order a) {z | ∃ x ∈ instants order a, z = |x|} (HasInfiniteInacc order a) := by
  obtain ⟨hlow, hhigh⟩ := toInt_inRange t1
  have hread := ha
  obtain ⟨tdf, hread⟩ := hread
  rw [utc_abstime, bind_of_ok _ hread]
  dsimp only
  split
  case isTrue => exact conservative_error
  case isFalse hne =>
    have hleast : t1.toInt ≠ -2 ^ 63 := fun h => hne (BitVec.eq_of_toInt_eq h)
    have habs : (UTCabsVal t1).toInt = |t1.toInt| := by
      rw [UTCabsVal]
      split
      case isTrue hneg =>
        rw [IsUTCneg_iff] at hneg
        have hsub : UTCsub 0 t1 = BitVec.ofInt 64 (-t1.toInt) := by
          rw [UTCsub, BitVec.ofInt_neg, BitVec.ofInt_toInt, BitVec.ofNat_eq_ofNat, BitVec.zero_sub]
        rw [hsub, toInt_ofInt_of_inRange ⟨by omega, by omega⟩, abs_of_neg hneg]
      case isFalse hneg =>
        rw [IsUTCneg_iff] at hneg
        rw [abs_of_nonneg (by omega)]
    rw [conservative_mkcomptime_iff, IsInfiniteInacc_givenInacc_some]
    refine ⟨?_, ha.hasInfiniteInacc.mp⟩
    rintro _ ⟨x, hx, rfl⟩
    rw [within_givenInacc]
    obtain hinf | hx := ha.mem_instants.mp hx
    · exact Or.inl hinf
    · right
      rw [habs, Int.cast_abs]
      exact hx.abs

theorem utc_multime_zero {a : utc_t} {t1 i1 : UTCValue} {tdf : ℤ} (ha : utc_comptime ⟨order, .b32⟩ a = .ok (t1, i1, tdf))
    (hpos : 0 ≤ t1.toInt) : utc_multime order a 0 = utc_mkcomptime ⟨order, .b32⟩ 0 (some 0) tdf := by
  have htime : IsUTCneg t1 = false := Bool.eq_false_iff.mpr (IsUTCneg_iff.not.mpr (by omega))
  have hzero : BitVec.slt (0 : BitVec 32) 0 = false := by decide
  rw [utc_multime, bind_of_ok _ ha]
  simp only [hzero, Bool.false_eq_true, ↓reduceIte, emul_zero, UTCiMul_zero, htime]
  rfl

theorem multime_conservative_iff {a : utc_t} {t1 i1 : UTCValue} (ha : Reads order a t1 i1) (factor : BitVec 32) :
    Conservative order (utc_multime order a factor) {z | ∃ x ∈ instants order a, z = factor.toInt * x}
      (HasInfiniteInacc order a) ↔ ¬ (IsInfiniteInacc i1 = true ∧ factor = 0 ∧ 0 ≤ t1.toInt) := by
  have hread := ha
  obtain ⟨tdf, hread⟩ := hread
  constructor
  · rintro h ⟨hinf, rfl, hpos⟩
    rw [utc_multime_zero hread hpos, conservative_mkcomptime_iff] at h
    have hzero := h.2 (ha.hasInfiniteInacc.mpr hinf)
    revert hzero
    decide
  · intro hnot
    rw [utc_multime, bind_of_ok _ hread]
    dsimp only
    split
    case isTrue => exact conservative_error
    case isFalse hfits =>
      split
      case isTrue => exact conservative_error
      case isFalse hsign =>
        have htime := multime_time hfits (Bool.eq_false_iff.mpr hsign)
        have hinacc := mulinacc_spec ha.inacc_le factor _ (toInt_absfactor factor) rfl
        generalize (if (emul i1.hi (if factor.slt 0 then -factor else factor)).hi ≠ 0 ∨
          0xffff < (emul i1.hi (if factor.slt 0 then -factor else factor)).lo then (0xFFFFFFFFFFFFFFFF : UTCValue)
          else UTCiMul i1 (if factor.slt 0 then -factor else factor)) = resultinacc at hinacc ⊢
        -- an infinite inaccuracy stays infinite, for a factor of zero leaves a negative time to the sign check
        have hgrow : IsInfiniteInacc i1 = true → IsInfiniteInacc resultinacc = true := by
          intro hinf
          obtain hinfinite | hexact := hinacc
          · exact hinfinite
          have hfactor : factor ≠ 0 := by
            rintro rfl
            have hneg : IsUTCneg t1 = true := IsUTCneg_iff.mpr (by
              by_contra hpos
              exact hnot ⟨hinf, rfl, by omega⟩)
            rw [UTCiMul_zero, hneg] at hsign
            exact hsign (by decide)
          have hone : 1 ≤ |factor.toInt| := Int.one_le_abs fun h => hfactor (BitVec.eq_of_toInt_eq h)
          rw [IsInfiniteInacc_iff] at hinf ⊢
          have hle : (i1.toNat : ℤ) ≤ |factor.toInt| * i1.toNat := le_mul_of_one_le_left (by omega) hone
          omega
        rw [conservative_mkcomptime_iff, IsInfiniteInacc_givenInacc_some]
        refine ⟨?_, fun hinf => hgrow (ha.hasInfiniteInacc.mp hinf)⟩
        rintro _ ⟨x, hx, rfl⟩
        rw [within_givenInacc]
        obtain hinf | hx := ha.mem_instants.mp hx
        · exact Or.inl (hgrow hinf)
        obtain hinfinite | hexact := hinacc
        · exact Or.inl hinfinite
        · right
          have hcast : ((resultinacc.toNat : ℤ) : ℝ) = |(factor.toInt : ℝ)| * i1.toNat := by
            rw [hexact]
            push_cast
            rfl
          rw [htime, ← Int.cast_natCast, hcast, Int.cast_mul]
          exact hx.mul (factor.toInt : ℝ)

theorem within_iff_of_ends {image : Set ℝ} {low high : ℤ} (hlow : (low : ℝ) ∈ image) (hhigh : (high : ℝ) ∈ image)
    (hbetween : ∀ x ∈ image, (low : ℝ) ≤ x ∧ x ≤ high) :
    (∀ x ∈ image, Within time inacc x) ↔
      IsInfiniteInacc inacc = true ∨ (time.toInt - inacc.toNat ≤ low ∧ high ≤ time.toInt + inacc.toNat) := by
  constructor
  · intro h
    obtain hinf | hl := h _ hlow
    · exact Or.inl hinf
    obtain hinf | hh := h _ hhigh
    · exact Or.inl hinf
    · rw [near_intCast_iff] at hl hh
      exact Or.inr ⟨hl.1, hh.2⟩
  · rintro (hinf | ⟨hstart, hend⟩) x hx
    · exact Or.inl hinf
    · obtain ⟨hl, hh⟩ := hbetween x hx
      exact Or.inr (near_of_between hl hh (by exact_mod_cast hstart) (by exact_mod_cast hend))

theorem Reads.mem_instants_ends {a : utc_t} (ha : Reads order a time inacc) (hfinite : IsInfiniteInacc inacc = false) {x : ℝ} :
    x ∈ instants order a ↔
      ((time.toInt - inacc.toNat : ℤ) : ℝ) ≤ x ∧ x ≤ ((time.toInt + inacc.toNat : ℤ) : ℝ) := by
  rw [ha.mem_instants, Within, hfinite, near_iff]
  push_cast
  simp

theorem conservative_mkcomptime_some_iff {tdf : ℤ} {image : Set ℝ} {infinite : Prop} (hinfinite : ¬ infinite) :
    Conservative order (utc_mkcomptime ⟨order, .b32⟩ time (some inacc) tdf) image infinite ↔ ∀ x ∈ image, Within time inacc x := by
  rw [conservative_mkcomptime_iff]
  simp only [within_givenInacc, hinfinite, false_implies, and_true]

theorem boundtime_conservative_iff {a b : utc_t} {t1 i1 t2 i2 : UTCValue} (ha : Reads order a t1 i1) (hb : Reads order b t2 i2) :
    Conservative order (utc_boundtime order a b) {z | ∃ x ∈ instants order a, ∃ y ∈ instants order b, x ≤ z ∧ z ≤ y}
      (HasInfiniteInacc order a ∨ HasInfiniteInacc order b) ↔
    IsInfiniteInacc i1 = true ∨ IsInfiniteInacc i2 = true ∨ ¬ Overlong (t1.toInt - i1.toNat) (t2.toInt + i2.toNat) := by
  have hreada := ha
  have hreadb := hb
  obtain ⟨_, hreada⟩ := hreada
  obtain ⟨tdf, hreadb⟩ := hreadb
  have hle1 := ha.inacc_le
  have hle2 := hb.inacc_le
  rw [utc_boundtime, bind_of_ok _ hreada]
  dsimp only
  rw [bind_of_ok _ hreadb]
  dsimp only
  split
  case isTrue hinf =>
    rw [Bool.or_eq_true] at hinf
    have hcond : IsInfiniteInacc i1 = true ∨ IsInfiniteInacc i2 = true ∨ ¬ Overlong (t1.toInt - i1.toNat) (t2.toInt + i2.toNat) := by
      tauto
    simp only [hcond, iff_true]
    split
    case isTrue => exact conservative_error
    case isFalse =>
      rw [conservative_mkcomptime_iff]
      have htop : IsInfiniteInacc (givenInacc none) = true := by decide
      exact ⟨fun x _ => Or.inl htop, fun _ => htop⟩
  case isFalse hfinite =>
    rw [Bool.not_eq_true, Bool.or_eq_false_iff] at hfinite
    obtain ⟨hfinite1, hfinite2⟩ := hfinite
    have hinfinite : ¬ (HasInfiniteInacc order a ∨ HasInfiniteInacc order b) := by
      rw [ha.hasInfiniteInacc, hb.hasInfiniteInacc, hfinite1, hfinite2]
      simp
    obtain ⟨hlow1, hhigh1⟩ := toInt_inRange t1
    obtain ⟨hlow2, hhigh2⟩ := toInt_inRange t2
    simp only [hfinite1, hfinite2, Bool.false_eq_true, false_or]
    rw [← bound_ends_iff (by omega) (by omega) (toInt_UTCsub t1 hle1) (toInt_UTCadd t2 hle2)]
    split
    case isTrue hgt =>
      rw [IsUTCgt_iff] at hgt
      simp only [conservative_error, hgt.not_ge, false_implies]
    case isFalse hle =>
      rw [IsUTCgt_iff, not_lt] at hle
      simp only [conservative_mkcomptime_some_iff hinfinite, hle, true_implies]
      by_cases hordered : t1.toInt - i1.toNat ≤ t2.toInt + i2.toNat
      · simp only [hordered, true_implies]
        have hordered' : ((t1.toInt - i1.toNat : ℤ) : ℝ) ≤ ((t2.toInt + i2.toNat : ℤ) : ℝ) := by exact_mod_cast hordered
        have hlow : ((t1.toInt - i1.toNat : ℤ) : ℝ) ∈ instants order a :=
          (ha.mem_instants_ends hfinite1).mpr ⟨le_rfl, by exact_mod_cast (by omega)⟩
        have hhigh : ((t2.toInt + i2.toNat : ℤ) : ℝ) ∈ instants order b :=
          (hb.mem_instants_ends hfinite2).mpr ⟨by exact_mod_cast (by omega), le_rfl⟩
        refine within_iff_of_ends
          ⟨_, hlow, _, hhigh, le_rfl, hordered'⟩ ⟨_, hlow, _, hhigh, hordered', le_rfl⟩ ?_
        rintro z ⟨x, hx, y, hy, hxz, hzy⟩
        exact ⟨((ha.mem_instants_ends hfinite1).mp hx).1.trans hxz, hzy.trans ((hb.mem_instants_ends hfinite2).mp hy).2⟩
      · simp only [hordered, false_implies, iff_true]
        rintro z ⟨x, hx, y, hy, hxz, hzy⟩
        have hx' := ((ha.mem_instants_ends hfinite1).mp hx).1
        have hy' := ((hb.mem_instants_ends hfinite2).mp hy).2
        exact absurd (by exact_mod_cast hx'.trans (hxz.trans (hzy.trans hy'))) hordered

theorem spantime_conservative_iff {a b : utc_t} {t1 i1 t2 i2 : UTCValue} (ha : Reads order a t1 i1) (hb : Reads order b t2 i2) :
    Conservative order (utc_spantime order a b) (instants order a ∪ instants order b)
      (HasInfiniteInacc order a ∨ HasInfiniteInacc order b) ↔
    IsInfiniteInacc i1 = true ∨ IsInfiniteInacc i2 = true ∨
      Spannable (min (t1.toInt - i1.toNat) (t2.toInt - i2.toNat)) (max (t1.toInt + i1.toNat) (t2.toInt + i2.toNat))
        (min (UTCsub t1 i1).toInt (UTCsub t2 i2).toInt) (max (UTCadd t1 i1).toInt (UTCadd t2 i2).toInt) := by
  have hreada := ha
  have hreadb := hb
  obtain ⟨_, hreada⟩ := hreada
  obtain ⟨tdf, hreadb⟩ := hreadb
  rw [utc_spantime, bind_of_ok _ hreada]
  dsimp only
  rw [bind_of_ok _ hreadb]
  dsimp only
  split
  case isTrue hinf =>
    rw [Bool.or_eq_true] at hinf
    rw [conservative_mkcomptime_iff, ← or_assoc]
    have htop : IsInfiniteInacc (givenInacc none) = true := by decide
    exact ⟨fun _ => Or.inl hinf, fun _ => ⟨fun x _ => Or.inl htop, fun _ => htop⟩⟩
  case isFalse hfinite =>
    rw [Bool.not_eq_true, Bool.or_eq_false_iff] at hfinite
    obtain ⟨hfinite1, hfinite2⟩ := hfinite
    have hinfinite : ¬ (HasInfiniteInacc order a ∨ HasInfiniteInacc order b) := by
      rw [ha.hasInfiniteInacc, hb.hasInfiniteInacc, hfinite1, hfinite2]
      simp
    have hmem1 (x : ℝ) := ha.mem_instants_ends hfinite1 (x := x)
    have hmem2 (x : ℝ) := hb.mem_instants_ends hfinite2 (x := x)
    have hle1 : ((t1.toInt - i1.toNat : ℤ) : ℝ) ≤ ((t1.toInt + i1.toNat : ℤ) : ℝ) := by exact_mod_cast (by omega)
    have hle2 : ((t2.toInt - i2.toNat : ℤ) : ℝ) ≤ ((t2.toInt + i2.toNat : ℤ) : ℝ) := by exact_mod_cast (by omega)
    have hlow : ((min (t1.toInt - i1.toNat) (t2.toInt - i2.toNat) : ℤ) : ℝ) ∈ instants order a ∪ instants order b := by
      obtain h | h := min_choice (t1.toInt - i1.toNat) (t2.toInt - i2.toNat) <;> rw [h]
      · exact Or.inl ((hmem1 _).mpr ⟨le_rfl, hle1⟩)
      · exact Or.inr ((hmem2 _).mpr ⟨le_rfl, hle2⟩)
    have hhigh : ((max (t1.toInt + i1.toNat) (t2.toInt + i2.toNat) : ℤ) : ℝ) ∈ instants order a ∪ instants order b := by
      obtain h | h := max_choice (t1.toInt + i1.toNat) (t2.toInt + i2.toNat) <;> rw [h]
      · exact Or.inl ((hmem1 _).mpr ⟨hle1, le_rfl⟩)
      · exact Or.inr ((hmem2 _).mpr ⟨hle2, le_rfl⟩)
    rw [conservative_mkcomptime_some_iff hinfinite, within_iff_of_ends hlow hhigh]
    · rw [span_ends_iff ha.inacc_le hb.inacc_le (toInt_ite_gt _ _) (toInt_ite_lt _ _), toInt_ite_gt, toInt_ite_lt, hfinite1,
        hfinite2]
      simp
    · rintro x (hx | hx)
      · obtain ⟨hx1, hx2⟩ := (hmem1 x).mp hx
        rw [Int.cast_min, Int.cast_max]
        exact ⟨(min_le_left _ _).trans hx1, hx2.trans (le_max_left _ _)⟩
      · obtain ⟨hx1, hx2⟩ := (hmem2 x).mp hx
        rw [Int.cast_min, Int.cast_max]
        exact ⟨(min_le_right _ _).trans hx1, hx2.trans (le_max_right _ _)⟩

/-- Every operation on the two times gives an interval that holds the results for all instants of theirs. -/
structure AllConservative (order : ByteOrder) (a b : utc_t) (factor : BitVec 32) : Prop where
  addtime : Conservative order (utc_addtime order a b) {z | ∃ x ∈ instants order a, ∃ y ∈ instants order b, z = x + y}
    (HasInfiniteInacc order a ∨ HasInfiniteInacc order b)
  subtime : Conservative order (utc_subtime order a b) {z | ∃ x ∈ instants order a, ∃ y ∈ instants order b, z = x - y}
    (HasInfiniteInacc order a ∨ HasInfiniteInacc order b)
  multime : Conservative order (utc_multime order a factor) {z | ∃ x ∈ instants order a, z = factor.toInt * x}
    (HasInfiniteInacc order a)
  spantime : Conservative order (utc_spantime order a b) (instants order a ∪ instants order b)
    (HasInfiniteInacc order a ∨ HasInfiniteInacc order b)
  boundtime : Conservative order (utc_boundtime order a b) {z | ∃ x ∈ instants order a, ∃ y ∈ instants order b, x ≤ z ∧ z ≤ y}
    (HasInfiniteInacc order a ∨ HasInfiniteInacc order b)
  abstime : Conservative order (utc_abstime order a) {z | ∃ x ∈ instants order a, z = |x|} (HasInfiniteInacc order a)

/-- The words hold the times that the operations compute, and no infinite inaccuracy is multiplied with zero. -/
structure Fits (t1 i1 t2 i2 : UTCValue) (factor : BitVec 32) : Prop where
  sum : 2 ^ 48 - 1 ≤ i1.toNat + i2.toNat ∨ InRange (t1.toInt + t2.toInt)
  difference : 2 ^ 48 - 1 ≤ i1.toNat + i2.toNat ∨ InRange (t1.toInt - t2.toInt)
  product : ¬ (IsInfiniteInacc i1 = true ∧ factor = 0 ∧ 0 ≤ t1.toInt)
  span : IsInfiniteInacc i1 = true ∨ IsInfiniteInacc i2 = true ∨
    Spannable (min (t1.toInt - i1.toNat) (t2.toInt - i2.toNat)) (max (t1.toInt + i1.toNat) (t2.toInt + i2.toNat))
      (min (UTCsub t1 i1).toInt (UTCsub t2 i2).toInt) (max (UTCadd t1 i1).toInt (UTCadd t2 i2).toInt)
  bound : IsInfiniteInacc i1 = true ∨ IsInfiniteInacc i2 = true ∨ ¬ Overlong (t1.toInt - i1.toNat) (t2.toInt + i2.toNat)

/-- The operations keep the instants of two times exactly where their words hold the results. -/
theorem intervals_kept_iff {order : ByteOrder} {a b : utc_t} {t1 i1 t2 i2 : UTCValue} (ha : Reads order a t1 i1)
    (hb : Reads order b t2 i2) (factor : BitVec 32) : AllConservative order a b factor ↔ Fits t1 i1 t2 i2 factor := by
  constructor
  · rintro ⟨hadd, hsub, hmul, hspan, hbound, -⟩
    exact ⟨(addtime_conservative_iff ha hb).mp hadd, (subtime_conservative_iff ha hb).mp hsub,
      (multime_conservative_iff ha factor).mp hmul, (spantime_conservative_iff ha hb).mp hspan,
      (boundtime_conservative_iff ha hb).mp hbound⟩
  · rintro ⟨hadd, hsub, hmul, hspan, hbound⟩
    exact ⟨(addtime_conservative_iff ha hb).mpr hadd, (subtime_conservative_iff ha hb).mpr hsub,
      (multime_conservative_iff ha factor).mpr hmul, (spantime_conservative_iff ha hb).mpr hspan,
      (boundtime_conservative_iff ha hb).mpr hbound, abstime_conservative ha⟩

/-- The times -1 with an inaccuracy of 2, and 3 with an inaccuracy of 1. -/
theorem intervals_kept_iff_aroundEpoch :
    AllConservative .little (wireForm .little (-1) 2 0) (wireForm .big 3 1 0) (-5) ↔ Fits (-1) 2 3 1 (-5) :=
  intervals_kept_iff ⟨0, by decide⟩ ⟨0, by decide⟩ (-5)

/-- The sum of the greatest time and 1 is the least time. -/
theorem sum_wraps : ¬ ∀ (order : ByteOrder) (a b : utc_t) (factor : BitVec 32), AllConservative order a b factor := by
  intro h
  have ha : Reads .little (wireForm .little 0x7FFFFFFFFFFFFFFF 0 0) 0x7FFFFFFFFFFFFFFF 0 := ⟨0, by decide⟩
  have hb : Reads .little (wireForm .little 1 0 0) 1 0 := ⟨0, by decide⟩
  have hadd := (addtime_conservative_iff ha hb).mp (h .little _ _ 1).addtime
  unfold InRange at hadd
  revert hadd
  decide

end dce.dts
