import Dce.Dts.Division
import Dce.Dts.Product

namespace dce.dts

/-- `U64IDIV` of words of 32 bits: the quotient by a signed word and the remainder, which has the sign of the dividend. -/
def U64IDIV (dividend : unsigned64) (I : BitVec 32) : Option (unsigned64 × BitVec 32) := do
  let negDividend : Bool := decide (dividend.hi &&& SIGN ≠ 0)
  let intermed2 := if negDividend then -dividend.lo else dividend.lo
  let intermed := if negDividend then (if intermed2 = 0 then ~~~dividend.hi + 1 else ~~~dividend.hi) else dividend.hi
  let divisor := if I.slt 0 then -I else I
  let (hi, rest) ← uediv { hi := 0, lo := intermed } divisor
  let (lo, remd) ← uediv { hi := rest, lo := intermed2 } divisor
  let quot : unsigned64 :=
    if negDividend ^^ I.slt 0 then { lo := -lo, hi := if -lo = 0 then ~~~hi + 1 else ~~~hi } else { hi, lo }
  some (quot, if negDividend then -remd else remd)

def UTCiDiv (dividend : UTCValue) (I : ℤ) : Except Failure (UTCValue × BitVec 32) :=
  match U64IDIV { hi := dividend.hi, lo := dividend.lo } (.ofInt 32 I) with
  | none => .error .undefined
  | some (quot, remd) => .ok (quot.value, remd)

theorem value_negate (hi lo : BitVec 32) :
    unsigned64.value { lo := -lo, hi := if -lo = 0 then ~~~hi + 1 else ~~~hi } = -unsigned64.value { hi, lo } := by
  have hlo := lo.isLt
  have hhi := hi.isLt
  have hneg : (-lo).toNat = (2 ^ 32 - lo.toNat) % 2 ^ 32 := BitVec.toNat_neg lo
  have hzero : -lo = 0 ↔ lo.toNat = 0 := by
    rw [← BitVec.toNat_inj, hneg]
    simp only [BitVec.ofNat_eq_ofNat, BitVec.toNat_ofNat]
    omega
  apply BitVec.eq_of_toNat_eq
  rw [BitVec.toNat_neg, toNat_value, toNat_value]
  dsimp only
  by_cases hlow : lo.toNat = 0
  · rw [if_pos (hzero.mpr hlow), show ~~~hi + 1 = -hi from (BitVec.neg_eq_not_add hi).symm, BitVec.toNat_neg, hneg]
    omega
  · rw [if_neg (mt hzero.mp hlow), BitVec.toNat_not, hneg]
    omega

theorem long_quotient (high low : ℕ) {d : ℕ} (hpos : 0 < d) :
    high / d * 2 ^ 32 + (high % d * 2 ^ 32 + low) / d = (high * 2 ^ 32 + low) / d ∧
      (high % d * 2 ^ 32 + low) % d = (high * 2 ^ 32 + low) % d := by
  have hsplit : high * 2 ^ 32 + low = high % d * 2 ^ 32 + low + d * (high / d * 2 ^ 32) := by
    have hdiv := Nat.div_add_mod high d
    calc high * 2 ^ 32 + low = (d * (high / d) + high % d) * 2 ^ 32 + low := by rw [hdiv]
      _ = high % d * 2 ^ 32 + low + d * (high / d * 2 ^ 32) := by ring
  constructor
  · rw [hsplit, Nat.add_mul_div_left _ _ hpos, Nat.add_comm]
  · rw [hsplit, Nat.add_mul_mod_self_left]

theorem uediv_exists {u : unsigned64} {d : BitVec 32} (hfits : u.value.toNat < d.toNat * 2 ^ 32) :
    ∃ q r, uediv u d = some (q, r) ∧ q.toNat = u.value.toNat / d.toNat ∧ r.toNat = u.value.toNat % d.toNat := by
  obtain ⟨hnone, hsome⟩ := uediv_spec u d
  cases hdiv : uediv u d with
  | none => exact absurd (hnone.mp hdiv) (not_le.mpr hfits)
  | some stored =>
    obtain ⟨q, r⟩ := stored
    exact ⟨q, r, rfl, hsome q r hdiv⟩

theorem toNat_intermed (u : unsigned64) (negDividend : Bool) (hneg : negDividend = true ↔ u.value.toInt < 0) :
    unsigned64.value ⟨if negDividend then (if (if negDividend then -u.lo else u.lo) = 0 then ~~~u.hi + 1 else ~~~u.hi)
        else u.hi, if negDividend then -u.lo else u.lo⟩ =
      .ofNat 64 u.value.toInt.natAbs := by
  have hcases := toInt_cases64 u.value
  have hlt := u.value.isLt
  apply BitVec.eq_of_toNat_eq
  rw [BitVec.toNat_ofNat]
  cases negDividend with
  | true =>
    simp only [true_iff] at hneg
    simp only [if_true]
    rw [value_negate, BitVec.toNat_neg]
    change (2 ^ 64 - u.value.toNat) % 2 ^ 64 = _
    omega
  | false =>
    simp only [Bool.false_eq_true, false_iff, not_lt] at hneg
    simp only [Bool.false_eq_true, if_false]
    change u.value.toNat = _
    omega

theorem U64IDIV_spec (u : unsigned64) {I : BitVec 32} (hI : I ≠ 0) :
    ∃ quot remd, U64IDIV u I = some (quot, remd) ∧ quot.value = .ofInt 64 (u.value.toInt.tdiv I.toInt) ∧
      remd.toInt = u.value.toInt.tmod I.toInt := by
  obtain ⟨-, hnegDividend⟩ := toNat_tempDividend u
  obtain ⟨hdivisor, hnegDivisor⟩ := toNat_tempDivisor I
  obtain ⟨hquot, hrem⟩ := tdiv_natAbs hnegDividend hnegDivisor
  have hpos : 0 < I.toInt.natAbs := by
    refine Int.natAbs_pos.mpr fun hzero => hI ?_
    rwa [← BitVec.toInt_inj, BitVec.ofNat_eq_ofNat, BitVec.toInt_zero]
  have hbound : u.value.toInt.natAbs < 2 ^ 64 := by
    have hlow := BitVec.le_toInt u.value
    have hhigh := BitVec.toInt_lt (x := u.value)
    omega
  have hintermed := toNat_intermed u _ hnegDividend
  rw [U64IDIV]
  dsimp only
  generalize decide (u.hi &&& SIGN ≠ 0) = negDividend at *
  generalize I.slt 0 = negDivisor at *
  generalize (if negDividend = true then -u.lo else u.lo) = low at *
  generalize (if negDividend = true then (if low = 0 then ~~~u.hi + 1 else ~~~u.hi) else u.hi) = high at *
  generalize (if negDivisor = true then -I else I) = d at *
  have hwords : high.toNat * 2 ^ 32 + low.toNat = u.value.toInt.natAbs := by
    have htoNat := congrArg BitVec.toNat hintermed
    rwa [toNat_value, BitVec.toNat_ofNat, Nat.mod_eq_of_lt hbound] at htoNat
  have hd : 0 < d.toNat := hdivisor ▸ hpos
  -- the high word first, and its remainder in front of the low word
  obtain ⟨hi, rest, hfirst, hhi, hrest⟩ := uediv_exists (u := ⟨0, high⟩) (d := d) (by
    rw [toNat_value]
    have hlt := high.isLt
    simp only [BitVec.ofNat_eq_ofNat, BitVec.toNat_ofNat, Nat.zero_mod, Nat.zero_mul, Nat.zero_add]
    exact hlt.trans_le (Nat.le_mul_of_pos_left _ hd))
  have hhigh : (unsigned64.value ⟨0, high⟩).toNat = high.toNat := by
    rw [toNat_value]
    simp
  rw [hhigh] at hhi hrest
  have hrestlt : rest.toNat < d.toNat := hrest ▸ Nat.mod_lt _ hd
  obtain ⟨lo, remd, hsecond, hlo, hremd⟩ := uediv_exists (u := ⟨rest, low⟩) (d := d) (by
    rw [toNat_value]
    have hlt := low.isLt
    nlinarith)
  rw [toNat_value, hrest] at hlo hremd
  obtain ⟨hquotient, hremainder⟩ := long_quotient high.toNat low.toNat hd
  rw [← hhi, hwords, hdivisor] at hquotient
  rw [hwords, hdivisor] at hremainder
  rw [hdivisor] at hlo hremd
  rw [← hlo] at hquotient
  rw [← hremd] at hremainder
  have hvalue : unsigned64.value ⟨hi, lo⟩ = .ofNat 64 (u.value.toInt.natAbs / I.toInt.natAbs) := by
    have hlt := (unsigned64.value ⟨hi, lo⟩).isLt
    rw [toNat_value] at hlt
    refine BitVec.eq_of_toNat_eq ?_
    rw [toNat_value, BitVec.toNat_ofNat, ← hquotient, Nat.mod_eq_of_lt hlt]
  have hsmall : remd.toNat < 2 ^ 31 := by
    have hmod := Nat.mod_lt u.value.toInt.natAbs hpos
    have hlow := I.le_toInt
    have hhigh := I.toInt_lt
    omega
  simp only [hfirst, hsecond, Option.bind_eq_bind, Option.bind_some]
  refine ⟨_, _, rfl, ?_, ?_⟩
  · rw [hquot, Bool.xor_comm]
    cases (negDivisor ^^ negDividend) with
    | true =>
      simp only [if_true]
      rw [value_negate, hvalue, neg_one_mul, BitVec.ofInt_neg, BitVec.ofInt_natCast]
    | false =>
      simp only [Bool.false_eq_true, if_false]
      rw [hvalue, one_mul, BitVec.ofInt_natCast]
  · rw [hrem, ← hremainder]
    cases negDividend with
    | true =>
      simp only [if_true]
      rw [toInt_neg_word hsmall.le, neg_one_mul]
    | false =>
      simp only [Bool.false_eq_true, if_false]
      rw [one_mul, BitVec.toInt_eq_toNat_of_lt (by omega)]

theorem UTCiDiv_spec (v : UTCValue) {I : ℤ} (hI : I ≠ 0) (hlow : -2 ^ 31 ≤ I) (hhigh : I < 2 ^ 31) :
    ∃ remd, UTCiDiv v I = .ok (.ofInt 64 (v.toInt.tdiv I), remd) ∧ remd.toInt = v.toInt.tmod I := by
  have hword : (BitVec.ofInt 32 I).toInt = I := by
    rw [BitVec.toInt_ofInt, Int.bmod_eq_of_le (by omega) (by omega)]
  have hne : BitVec.ofInt 32 I ≠ 0 := by
    intro hzero
    rw [hzero] at hword
    exact hI (hword.symm.trans (by decide))
  obtain ⟨quot, remd, hdiv, hquot, hremd⟩ := U64IDIV_spec ⟨v.hi, v.lo⟩ hne
  rw [words_value, hword] at hquot hremd
  exact ⟨remd, by simp only [UTCiDiv, hdiv, hquot], hremd⟩

theorem tdiv_tmod_spec (x : ℤ) {d : ℤ} (hd : 0 < d) :
    d * x.tdiv d + x.tmod d = x ∧ -d < x.tmod d ∧ x.tmod d < d ∧ (0 ≤ x → 0 ≤ x.tmod d) ∧ (x ≤ 0 → x.tmod d ≤ 0) := by
  refine ⟨Int.mul_tdiv_add_tmod x d, Int.lt_tmod_of_pos x hd, Int.tmod_lt_of_pos x hd, Int.tmod_nonneg d, fun hx => ?_⟩
  have hneg := Int.tmod_nonneg d (neg_nonneg.mpr hx)
  rw [Int.neg_tmod] at hneg
  omega

end dce.dts
