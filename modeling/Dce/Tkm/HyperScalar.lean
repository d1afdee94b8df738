import Dce.Tkm.Hyper

namespace dce.tkm

/-- The operators that `AFS_HOP` is used with: `|`, `&`, `^` and `&~`. -/
inductive HyperOp where
  | or
  | and
  | xor
  | andNot
  deriving DecidableEq

def HyperOp.apply {w : ℕ} (op : HyperOp) (x y : BitVec w) : BitVec w :=
  match op with
  | or => x ||| y
  | and => x &&& y
  | xor => x ^^^ y
  | andNot => x &&& ~~~y

/-! The macros on two words -/

def AFS_hgethi (a : afs_hyper_t) : BitVec 32 := a.h_high

def AFS_hgetlo (a : afs_hyper_t) : BitVec 32 := a.h_low

/-- `AFS_hcmp64` from the two words of its first argument. -/
def hcmp64 (ahi alo hi lo : BitVec 32) : ℤ :=
  if ahi < hi then -1
  else if ahi > hi then 1
  else if alo < lo then -1
  else if alo > lo then 1
  else 0

def AFS_hcmp64 (a : afs_hyper_t) (hi lo : BitVec 32) : ℤ := hcmp64 (AFS_hgethi a) (AFS_hgetlo a) hi lo

def AFS_hleftshift (a : afs_hyper_t) (amt : ℕ) : afs_hyper_t :=
  if amt ≥ 32 then ⟨a.h_low <<< (amt - 32), 0⟩
  else
    let h_high := a.h_high <<< amt
    ⟨h_high ||| a.h_low >>> (32 - amt), a.h_low <<< amt⟩

def AFS_hrightshift (a : afs_hyper_t) (amt : ℕ) : afs_hyper_t :=
  if amt ≥ 32 then ⟨0, a.h_high >>> (amt - 32)⟩
  else
    let h_low := a.h_low >>> amt
    ⟨a.h_high >>> amt, h_low ||| a.h_high <<< (32 - amt)⟩

def AFS_hset32 (i : BitVec 32) : afs_hyper_t := ⟨if i.slt 0 then -1 else 0, i⟩

def carry (p : Bool) : BitVec 32 := if p then 1 else 0

def AFS_hadd32 (a : afs_hyper_t) (i : BitVec 32) : afs_hyper_t :=
  let h_high :=
    if BitVec.slt 0 i then a.h_high + carry (decide (i > 0xffffffff - a.h_low))
    else a.h_high - carry (decide (a.h_low < -i))
  ⟨h_high, a.h_low + i⟩

def AFS_hadd (a b : afs_hyper_t) : afs_hyper_t :=
  ⟨a.h_high + (b.h_high + carry (decide (b.h_low > 0xffffffff - a.h_low))), a.h_low + b.h_low⟩

def AFS_hsub (a b : afs_hyper_t) : afs_hyper_t :=
  ⟨a.h_high - (b.h_high + carry (decide (a.h_low < b.h_low))), a.h_low - b.h_low⟩

def AFS_hnegate (a : afs_hyper_t) : afs_hyper_t := AFS_hincr ⟨~~~a.h_high, ~~~a.h_low⟩

def AFS_HOP (a : afs_hyper_t) (op : HyperOp) (b : afs_hyper_t) : afs_hyper_t :=
  ⟨op.apply a.h_high b.h_high, op.apply a.h_low b.h_low⟩

def AFS_HOP32 (a : afs_hyper_t) (op : HyperOp) (lo : BitVec 32) : afs_hyper_t :=
  ⟨op.apply a.h_high 0, op.apply a.h_low lo⟩

def AFS_hissubset (a b : afs_hyper_t) : Bool :=
  decide (a.h_low &&& ~~~b.h_low = 0) && decide (a.h_high &&& ~~~b.h_high = 0)

/-! The macros on `afs_64bit_scalar_type` -/

namespace scalar

def AFS_64BIT_LOW_MASK : BitVec 64 := 0xffffffff

def AFS_hcmp (a b : BitVec 64) : ℤ := if a < b then -1 else if a > b then 1 else 0

def AFS_hgetlo (a : BitVec 64) : BitVec 32 := (a &&& AFS_64BIT_LOW_MASK).setWidth 32

def AFS_hgethi (a : BitVec 64) : BitVec 32 := (a >>> 32 &&& AFS_64BIT_LOW_MASK).setWidth 32

def AFS_hcmp64 (a : BitVec 64) (hi lo : BitVec 32) : ℤ := hcmp64 (AFS_hgethi a) (AFS_hgetlo a) hi lo

def AFS_hleftshift (a : BitVec 64) (amt : ℕ) : BitVec 64 := a <<< amt

def AFS_hrightshift (a : BitVec 64) (amt : ℕ) : BitVec 64 := a >>> amt

def AFS_hset32 (i : BitVec 32) : BitVec 64 := i.signExtend 64

def AFS_hadd32 (a : BitVec 64) (i : BitVec 32) : BitVec 64 := a + i.signExtend 64

def AFS_hadd (a b : BitVec 64) : BitVec 64 := a + b

def AFS_hsub (a b : BitVec 64) : BitVec 64 := a - b

def AFS_hincr (a : BitVec 64) : BitVec 64 := a + 1

def AFS_hdecr (a : BitVec 64) : BitVec 64 := a - 1

def AFS_hnegate (a : BitVec 64) : BitVec 64 := -a

def AFS_HOP (a : BitVec 64) (op : HyperOp) (b : BitVec 64) : BitVec 64 := op.apply a b

def AFS_HOP32 (a : BitVec 64) (op : HyperOp) (lo : BitVec 32) : BitVec 64 :=
  op.apply a (lo.setWidth 64 &&& AFS_64BIT_LOW_MASK)

def AFS_hissubset (a b : BitVec 64) : Bool := decide (a &&& ~~~b = 0)

end scalar

namespace afs_hyper_t

def value (a : afs_hyper_t) : BitVec 64 := a.h_high ++ a.h_low

variable (a b : afs_hyper_t)

theorem toNat_value : a.value.toNat = a.toNat := by
  have hlow := a.h_low.isLt
  rw [value, BitVec.toNat_append, toNat, ← Nat.shiftLeft_add_eq_or_of_lt hlow, Nat.shiftLeft_eq]

theorem value_inj {a b : afs_hyper_t} : a.value = b.value ↔ a = b := by
  rw [← BitVec.toNat_inj, toNat_value, toNat_value, toNat_inj]

theorem exists_value (s : BitVec 64) : ∃ a : afs_hyper_t, a.value = s := by
  refine ⟨⟨.ofNat 32 (s.toNat / 2 ^ 32), .ofNat 32 (s.toNat % 2 ^ 32)⟩, BitVec.eq_of_toNat_eq ?_⟩
  have hs := s.isLt
  rw [toNat_value, toNat, BitVec.toNat_ofNat, BitVec.toNat_ofNat]
  omega

theorem getLsbD_value (n : ℕ) : a.value.getLsbD n = if n < 32 then a.h_low.getLsbD n else a.h_high.getLsbD (n - 32) := by
  rw [value, BitVec.getLsbD_append]

/-! Comparisons -/

theorem scalar_hgetlo : scalar.AFS_hgetlo a.value = a.h_low := by
  apply BitVec.eq_of_toNat_eq
  have hmask : (a.value &&& scalar.AFS_64BIT_LOW_MASK).toNat = a.value.toNat % 2 ^ 32 := by
    rw [BitVec.toNat_and]
    exact Nat.and_two_pow_sub_one_eq_mod _ 32
  have hlow := a.h_low.isLt
  rw [scalar.AFS_hgetlo, BitVec.toNat_setWidth, hmask, toNat_value, toNat]
  omega

theorem scalar_hgethi : scalar.AFS_hgethi a.value = a.h_high := by
  apply BitVec.eq_of_toNat_eq
  have hmask : (a.value >>> 32 &&& scalar.AFS_64BIT_LOW_MASK).toNat = (a.value >>> 32).toNat % 2 ^ 32 := by
    rw [BitVec.toNat_and]
    exact Nat.and_two_pow_sub_one_eq_mod _ 32
  have hlow := a.h_low.isLt
  have hhigh := a.h_high.isLt
  rw [scalar.AFS_hgethi, BitVec.toNat_setWidth, hmask, BitVec.toNat_ushiftRight, Nat.shiftRight_eq_div_pow, toNat_value, toNat]
  omega

theorem hcmp_value : AFS_hcmp a b = scalar.AFS_hcmp a.value b.value := by
  rw [hcmp_eq, scalar.AFS_hcmp]
  simp only [BitVec.lt_def, gt_iff_lt, toNat_value]

theorem hcmp64_value (hi lo : BitVec 32) : AFS_hcmp64 a hi lo = scalar.AFS_hcmp64 a.value hi lo := by
  rw [AFS_hcmp64, scalar.AFS_hcmp64, scalar_hgethi, scalar_hgetlo, AFS_hgethi, AFS_hgetlo]

/-! Sums and differences, whose low words carry into the high ones -/

theorem toNat_carry (p : Prop) [Decidable p] : (carry (decide p)).toNat = if p then 1 else 0 := by
  by_cases hp : p
  · rw [carry, if_pos hp, if_pos (decide_eq_true hp)]
    rfl
  · rw [carry, if_neg hp, if_neg (by rwa [decide_eq_true_eq])]
    rfl

theorem toNat_room (x : BitVec 32) : (0xffffffff - x).toNat = 2 ^ 32 - 1 - x.toNat := by
  rw [show (0xffffffff : BitVec 32) = BitVec.allOnes 32 from rfl, BitVec.allOnes_sub_eq_not, BitVec.toNat_not]

theorem hincr_value : (AFS_hincr a).value = scalar.AFS_hincr a.value := by
  apply BitVec.eq_of_toNat_eq
  rw [toNat_value, scalar.AFS_hincr, BitVec.toNat_add, toNat_value, toNat, toNat, AFS_hincr]
  by_cases hwrap : a.h_low + 1 = 0
  · simp only [hwrap, if_true]
    bv_omega
  · simp only [hwrap, if_false]
    bv_omega

theorem hdecr_value : (AFS_hdecr a).value = scalar.AFS_hdecr a.value := by
  apply BitVec.eq_of_toNat_eq
  rw [toNat_value, scalar.AFS_hdecr, BitVec.toNat_sub, toNat_value, toNat, toNat, AFS_hdecr]
  by_cases hwrap : a.h_low = 0
  · simp only [hwrap, if_true]
    bv_omega
  · simp only [hwrap, if_false]
    bv_omega

theorem hadd_value : (AFS_hadd a b).value = scalar.AFS_hadd a.value b.value := by
  have ha := a.h_low.isLt
  have hb := b.h_low.isLt
  apply BitVec.eq_of_toNat_eq
  rw [toNat_value, scalar.AFS_hadd, BitVec.toNat_add, toNat_value, toNat_value, toNat, toNat, toNat, AFS_hadd]
  simp only [BitVec.toNat_add, toNat_carry, gt_iff_lt, BitVec.lt_def, toNat_room]
  split_ifs <;> omega

theorem hsub_value : (AFS_hsub a b).value = scalar.AFS_hsub a.value b.value := by
  have ha := a.h_low.isLt
  have hb := b.h_low.isLt
  apply BitVec.eq_of_toNat_eq
  rw [toNat_value, scalar.AFS_hsub, BitVec.toNat_sub, toNat_value, toNat_value, toNat, toNat, toNat, AFS_hsub]
  simp only [BitVec.toNat_add, BitVec.toNat_sub, toNat_carry, BitVec.lt_def]
  split_ifs <;> omega

theorem hadd32_value (i : BitVec 32) : (AFS_hadd32 a i).value = scalar.AFS_hadd32 a.value i := by
  have ha := a.h_low.isLt
  have hi := i.isLt
  have hpositive : BitVec.slt 0 i = true ↔ 0 < i.toNat ∧ i.toNat < 2 ^ 31 := by
    rw [BitVec.slt_iff_toInt_lt, BitVec.toInt_eq_toNat_cond i, BitVec.ofNat_eq_ofNat, BitVec.toInt_zero]
    split_ifs <;> omega
  have hmsb : i.msb = true ↔ 2 ^ 31 ≤ i.toNat := by simp [BitVec.msb_eq_decide]
  apply BitVec.eq_of_toNat_eq
  rw [toNat_value, scalar.AFS_hadd32, BitVec.toNat_add, BitVec.toNat_signExtend, BitVec.toNat_setWidth, toNat_value, toNat,
    toNat, AFS_hadd32]
  simp only [hpositive, hmsb]
  by_cases hpos : 0 < i.toNat ∧ i.toNat < 2 ^ 31
  · rw [if_pos hpos, if_neg (not_le.mpr hpos.2)]
    simp only [BitVec.toNat_add, toNat_carry, gt_iff_lt, BitVec.lt_def, toNat_room]
    split_ifs <;> omega
  · rw [if_neg hpos]
    simp only [BitVec.toNat_add, BitVec.toNat_sub, toNat_carry, BitVec.lt_def, BitVec.toNat_neg]
    split_ifs <;> omega

theorem hnegate_value : (AFS_hnegate a).value = scalar.AFS_hnegate a.value := by
  have hcomplement : (mk (~~~a.h_high) (~~~a.h_low)).value = ~~~a.value := by
    apply BitVec.eq_of_getLsbD_eq
    intro n hn
    rw [getLsbD_value, BitVec.getLsbD_not (x := a.value), getLsbD_value, BitVec.getLsbD_not, BitVec.getLsbD_not]
    by_cases hlow : n < 32
    · rw [if_pos hlow, if_pos hlow, decide_eq_true hlow, decide_eq_true hn]
    · rw [if_neg hlow, if_neg hlow, decide_eq_true hn, decide_eq_true (by omega : n - 32 < 32)]
  rw [AFS_hnegate, hincr_value, hcomplement, scalar.AFS_hincr, scalar.AFS_hnegate]
  exact (BitVec.neg_eq_not_add _).symm

theorem hset32_value (i : BitVec 32) : (AFS_hset32 i).value = scalar.AFS_hset32 i := by
  have hi := i.isLt
  have hhigh : (if i.msb = true then (-1 : BitVec 32) else 0).toNat = if i.msb = true then 2 ^ 32 - 1 else 0 := by
    cases i.msb <;> rfl
  apply BitVec.eq_of_toNat_eq
  rw [toNat_value, scalar.AFS_hset32, BitVec.toNat_signExtend, BitVec.toNat_setWidth, toNat, AFS_hset32,
    BitVec.ofNat_eq_ofNat, BitVec.slt_zero_eq_msb]
  dsimp only
  rw [← BitVec.ofNat_eq_ofNat, hhigh]
  split_ifs <;> omega

/-! Shifts and bits -/

theorem hleftshift_value {amt : ℕ} (hlt : amt < 64) :
    (AFS_hleftshift a amt).value = scalar.AFS_hleftshift a.value amt := by
  apply BitVec.eq_of_getLsbD_eq
  intro n hn
  rw [scalar.AFS_hleftshift, BitVec.getLsbD_shiftLeft, decide_eq_true hn, Bool.true_and, getLsbD_value, getLsbD_value,
    AFS_hleftshift]
  by_cases hwide : amt ≥ 32
  · -- the low word becomes the high one
    rw [if_pos hwide]
    simp only [BitVec.getLsbD_shiftLeft, BitVec.ofNat_eq_ofNat, BitVec.getLsbD_zero]
    by_cases hlow : n < 32
    · simp [hlow, show n < amt by omega]
    · have hsub : n - 32 - (amt - 32) = n - amt := by omega
      have hiff : n - 32 < amt - 32 ↔ n < amt := by omega
      simp [hlow, hsub, hiff, show n - 32 < 32 by omega, show n - amt < 32 by omega]
  · rw [if_neg hwide]
    simp only [BitVec.getLsbD_or, BitVec.getLsbD_shiftLeft, BitVec.getLsbD_ushiftRight]
    by_cases hlow : n < 32
    · simp [hlow, show n - amt < 32 by omega]
    · -- a bit of the high word comes from either word
      by_cases hcross : n - amt < 32
      · have hsum : 32 - amt + (n - 32) = n - amt := by omega
        simp [hlow, hcross, hsum, show n - 32 < 32 by omega, show n - 32 < amt by omega, show ¬n < amt by omega]
      · have hsub : n - 32 - amt = n - amt - 32 := by omega
        have hhigh : a.h_low.getLsbD (32 - amt + (n - 32)) = false := BitVec.getLsbD_of_ge _ _ (by omega)
        simp [hlow, hcross, hsub, hhigh, show n - 32 < 32 by omega, show ¬n - 32 < amt by omega, show ¬n < amt by omega]

theorem hrightshift_value {amt : ℕ} (hlt : amt < 64) :
    (AFS_hrightshift a amt).value = scalar.AFS_hrightshift a.value amt := by
  apply BitVec.eq_of_getLsbD_eq
  intro n hn
  rw [scalar.AFS_hrightshift, BitVec.getLsbD_ushiftRight, getLsbD_value, getLsbD_value, AFS_hrightshift]
  by_cases hwide : amt ≥ 32
  · -- the high word becomes the low one
    rw [if_pos hwide]
    simp only [BitVec.getLsbD_ushiftRight, BitVec.ofNat_eq_ofNat, BitVec.getLsbD_zero]
    by_cases hlow : n < 32
    · have hsum : amt + n - 32 = amt - 32 + n := by omega
      simp [hlow, hsum, show ¬amt + n < 32 by omega]
    · have hhigh : a.h_high.getLsbD (amt + n - 32) = false := BitVec.getLsbD_of_ge _ _ (by omega)
      simp [hlow, hhigh, show ¬amt + n < 32 by omega]
  · rw [if_neg hwide]
    simp only [BitVec.getLsbD_or, BitVec.getLsbD_shiftLeft, BitVec.getLsbD_ushiftRight]
    by_cases hlow : n < 32
    · -- a bit of the low word comes from either word
      by_cases hcross : amt + n < 32
      · simp [hlow, hcross, show n < 32 - amt by omega]
      · have hsub : n - (32 - amt) = amt + n - 32 := by omega
        have hhigh : a.h_low.getLsbD (amt + n) = false := BitVec.getLsbD_of_ge _ _ (by omega)
        simp [hlow, hcross, hsub, hhigh, show ¬n < 32 - amt by omega]
    · have hsum : amt + n - 32 = amt + (n - 32) := by omega
      simp [hlow, hsum, show ¬amt + n < 32 by omega]

def bit (op : HyperOp) (x y : Bool) : Bool :=
  match op with
  | .or => x || y
  | .and => x && y
  | .xor => x ^^ y
  | .andNot => x && !y

theorem getLsbD_apply {w n : ℕ} (op : HyperOp) (x y : BitVec w) (hn : n < w) :
    (op.apply x y).getLsbD n = bit op (x.getLsbD n) (y.getLsbD n) := by
  cases op with
  | or => exact BitVec.getLsbD_or
  | and => exact BitVec.getLsbD_and
  | xor => exact BitVec.getLsbD_xor
  | andNot => rw [HyperOp.apply, BitVec.getLsbD_and, BitVec.getLsbD_not, decide_eq_true hn, Bool.true_and, bit]

theorem HOP_value (op : HyperOp) : (AFS_HOP a op b).value = scalar.AFS_HOP a.value op b.value := by
  apply BitVec.eq_of_getLsbD_eq
  intro n hn
  rw [scalar.AFS_HOP, getLsbD_value, getLsbD_apply op _ _ hn, getLsbD_value, getLsbD_value, AFS_HOP]
  by_cases hlow : n < 32
  · rw [if_pos hlow, if_pos hlow, if_pos hlow, getLsbD_apply op _ _ hlow]
  · rw [if_neg hlow, if_neg hlow, if_neg hlow, getLsbD_apply op _ _ (by omega)]

theorem value_low (lo : BitVec 32) : (mk 0 lo).value = lo.setWidth 64 &&& scalar.AFS_64BIT_LOW_MASK := by
  have hlo := lo.isLt
  have hmask : (lo.setWidth 64 &&& scalar.AFS_64BIT_LOW_MASK).toNat = (lo.setWidth 64).toNat % 2 ^ 32 := by
    rw [BitVec.toNat_and]
    exact Nat.and_two_pow_sub_one_eq_mod _ 32
  apply BitVec.eq_of_toNat_eq
  rw [hmask, toNat_value, toNat, BitVec.toNat_setWidth]
  change 0 * 2 ^ 32 + lo.toNat = _
  omega

theorem HOP32_value (op : HyperOp) (lo : BitVec 32) : (AFS_HOP32 a op lo).value = scalar.AFS_HOP32 a.value op lo := by
  rw [scalar.AFS_HOP32, ← value_low]
  exact HOP_value a ⟨0, lo⟩ op

theorem hissubset_value : AFS_hissubset a b = scalar.AFS_hissubset a.value b.value := by
  have hword : (AFS_HOP a .andNot b).value = a.value &&& ~~~b.value := HOP_value a b .andNot
  have hzero : (0 : BitVec 64) = (mk 0 0).value := rfl
  rw [AFS_hissubset, scalar.AFS_hissubset, ← hword, hzero, ← Bool.decide_and]
  apply decide_eq_decide.mpr
  rw [value_inj, AFS_HOP, mk.injEq, and_comm]
  rfl

end afs_hyper_t

/-- Each macro on two words is the one on scalars. -/
structure HyperAgree (a b : afs_hyper_t) (i hi lo : BitVec 32) : Prop where
  hcmp : AFS_hcmp a b = scalar.AFS_hcmp a.value b.value
  hcmp64 : AFS_hcmp64 a hi lo = scalar.AFS_hcmp64 a.value hi lo
  hadd : (AFS_hadd a b).value = scalar.AFS_hadd a.value b.value
  hadd32 : (AFS_hadd32 a i).value = scalar.AFS_hadd32 a.value i
  hsub : (AFS_hsub a b).value = scalar.AFS_hsub a.value b.value
  hincr : (AFS_hincr a).value = scalar.AFS_hincr a.value
  hdecr : (AFS_hdecr a).value = scalar.AFS_hdecr a.value
  hnegate : (AFS_hnegate a).value = scalar.AFS_hnegate a.value
  hleftshift : ∀ amt, 0 < amt → amt < 64 → (AFS_hleftshift a amt).value = scalar.AFS_hleftshift a.value amt
  hrightshift : ∀ amt, 0 < amt → amt < 64 → (AFS_hrightshift a amt).value = scalar.AFS_hrightshift a.value amt
  HOP : ∀ op, (AFS_HOP a op b).value = scalar.AFS_HOP a.value op b.value
  HOP32 : ∀ op, (AFS_HOP32 a op lo).value = scalar.AFS_HOP32 a.value op lo
  hset32 : (AFS_hset32 i).value = scalar.AFS_hset32 i
  hissubset : AFS_hissubset a b = scalar.AFS_hissubset a.value b.value

/-- The two implementations agree on all hypers, which stand one to one for the scalars. -/
theorem hyper_implementations_agree :
    Function.Bijective afs_hyper_t.value ∧ ∀ (a b : afs_hyper_t) (i hi lo : BitVec 32), HyperAgree a b i hi lo := by
  refine ⟨⟨fun a b => a.value_inj.mp, fun s => afs_hyper_t.exists_value s⟩, ?_⟩
  intro a b i hi lo
  exact {
    hcmp := a.hcmp_value b
    hcmp64 := a.hcmp64_value hi lo
    hadd := a.hadd_value b
    hadd32 := a.hadd32_value i
    hsub := a.hsub_value b
    hincr := a.hincr_value
    hdecr := a.hdecr_value
    hnegate := a.hnegate_value
    hleftshift := fun amt _ hlt => a.hleftshift_value hlt
    hrightshift := fun amt _ hlt => a.hrightshift_value hlt
    HOP := a.HOP_value b
    HOP32 := fun op => a.HOP32_value op lo
    hset32 := afs_hyper_t.hset32_value i
    hissubset := a.hissubset_value b }

end dce.tkm
