import Dce.Tkm.Types
import Mathlib.Data.BitVec

namespace dce.tkm

/-- `afs_hyper_t` in two words. -/
structure afs_hyper_t where
  h_high : BitVec 32
  h_low : BitVec 32
  deriving DecidableEq

def AFS_hcmp (a b : afs_hyper_t) : ℤ :=
  if a.h_high < b.h_high then -1
  else if a.h_high > b.h_high then 1
  else if a.h_low < b.h_low then -1
  else if a.h_low > b.h_low then 1
  else 0

def AFS_hincr (a : afs_hyper_t) : afs_hyper_t :=
  let low := a.h_low + 1
  ⟨if low = 0 then a.h_high + 1 else a.h_high, low⟩

def AFS_hdecr (a : afs_hyper_t) : afs_hyper_t := ⟨if a.h_low = 0 then a.h_high - 1 else a.h_high, a.h_low - 1⟩

def AFS_hset64 (hi lo : BitVec 32) : afs_hyper_t := ⟨hi, lo⟩

def AFS_hzero : afs_hyper_t := ⟨0, 0⟩

namespace afs_hyper_t

def toNat (a : afs_hyper_t) : ℕ := a.h_high.toNat * 2 ^ 32 + a.h_low.toNat

theorem toNat_lt (a : afs_hyper_t) : a.toNat < 2 ^ 64 := by
  have hhigh := a.h_high.isLt
  have hlow := a.h_low.isLt
  rw [toNat]
  omega

variable {a b : afs_hyper_t}

theorem toNat_inj : a.toNat = b.toNat ↔ a = b := by
  constructor
  · intro heq
    have ha := a.h_low.isLt
    have hb := b.h_low.isLt
    rw [toNat, toNat] at heq
    have hhigh : a.h_high = b.h_high := BitVec.eq_of_toNat_eq (by omega)
    have hlow : a.h_low = b.h_low := BitVec.eq_of_toNat_eq (by omega)
    exact (mk.injEq ..).mpr ⟨hhigh, hlow⟩
  · exact congrArg toNat

theorem hcmp_eq (a b : afs_hyper_t) :
    AFS_hcmp a b = if a.toNat < b.toNat then -1 else if b.toNat < a.toNat then 1 else 0 := by
  have ha := a.h_low.isLt
  have hb := b.h_low.isLt
  simp only [AFS_hcmp, toNat, BitVec.lt_def, gt_iff_lt]
  split_ifs <;> first | rfl | omega

theorem hcmp_lt : AFS_hcmp a b < 0 ↔ a.toNat < b.toNat := by
  rw [hcmp_eq]
  split_ifs <;> omega

theorem hcmp_gt : AFS_hcmp a b > 0 ↔ b.toNat < a.toNat := by
  rw [hcmp_eq]
  split_ifs <;> omega

theorem hcmp_ge : AFS_hcmp a b ≥ 0 ↔ b.toNat ≤ a.toNat := by
  rw [hcmp_eq]
  split_ifs <;> omega

theorem hcmp_le : AFS_hcmp a b ≤ 0 ↔ a.toNat ≤ b.toNat := by
  rw [hcmp_eq]
  split_ifs <;> omega

theorem hcmp_zero : AFS_hcmp a b = 0 ↔ a.toNat = b.toNat := by
  have hge := hcmp_ge (a := a) (b := b)
  have hle := hcmp_le (a := a) (b := b)
  omega

theorem hincr_toNat {a : afs_hyper_t} (hlt : a.toNat + 1 < 2 ^ 64) : (AFS_hincr a).toNat = a.toNat + 1 := by
  simp only [toNat, AFS_hincr] at hlt ⊢
  by_cases hwrap : a.h_low + 1 = 0
  · rw [if_pos hwrap]
    bv_omega
  · rw [if_neg hwrap]
    bv_omega

theorem hdecr_toNat {a : afs_hyper_t} (hpos : 0 < a.toNat) : (AFS_hdecr a).toNat = a.toNat - 1 := by
  simp only [toNat, AFS_hdecr] at hpos ⊢
  by_cases hwrap : a.h_low = 0
  · rw [if_pos hwrap]
    bv_omega
  · rw [if_neg hwrap]
    bv_omega

end afs_hyper_t

/-- `tkm_byterange_t`, both of whose bounds count. -/
structure tkm_byterange_t where
  lowBnd : afs_hyper_t
  upBnd : afs_hyper_t
  deriving DecidableEq

def TKM_BYTERANGE_IS_EMPTY (a : tkm_byterange_t) : Bool := decide (AFS_hcmp a.upBnd a.lowBnd < 0)

def TKM_BYTERANGE_HMIN (a b : afs_hyper_t) : afs_hyper_t := if AFS_hcmp a b < 0 then a else b

def TKM_BYTERANGE_HMAX (a b : afs_hyper_t) : afs_hyper_t := if AFS_hcmp a b > 0 then a else b

def TKM_DISJOINT_BYTERANGES (left right : tkm_byterange_t) : Bool :=
  TKM_BYTERANGE_IS_EMPTY left || TKM_BYTERANGE_IS_EMPTY right ||
    decide (AFS_hcmp (TKM_BYTERANGE_HMIN left.upBnd right.upBnd) (TKM_BYTERANGE_HMAX left.lowBnd right.lowBnd) < 0)

def TKM_BYTERANGE_IS_SUBRANGE (subrange range : tkm_byterange_t) : Bool :=
  decide (AFS_hcmp subrange.lowBnd range.lowBnd ≥ 0 ∧ AFS_hcmp subrange.upBnd range.upBnd ≤ 0)

def TKM_BYTERANGE_MAKE_RANGE_EMPTY : tkm_byterange_t := ⟨AFS_hset64 0 1, AFS_hzero⟩

def tkm_ByterangeIntersection (left right : tkm_byterange_t) : tkm_byterange_t :=
  if TKM_DISJOINT_BYTERANGES left right then TKM_BYTERANGE_MAKE_RANGE_EMPTY
  else ⟨TKM_BYTERANGE_HMAX left.lowBnd right.lowBnd, TKM_BYTERANGE_HMIN left.upBnd right.upBnd⟩

/-- The complement of the second range in the first one; a piece that is not there is `NULL`. -/
def tkm_ByterangeComplement (universeRange partiallyEnclosedRange : tkm_byterange_t) :
    Option tkm_byterange_t × Option tkm_byterange_t :=
  if TKM_BYTERANGE_IS_SUBRANGE universeRange partiallyEnclosedRange then (none, none)
  else if AFS_hcmp universeRange.lowBnd partiallyEnclosedRange.lowBnd ≠ 0 ∨
      AFS_hcmp universeRange.upBnd partiallyEnclosedRange.upBnd ≠ 0 then
    let enclosedRange := tkm_ByterangeIntersection universeRange partiallyEnclosedRange
    if !TKM_BYTERANGE_IS_EMPTY enclosedRange then
      if AFS_hcmp universeRange.lowBnd enclosedRange.lowBnd = 0 then
        (some ⟨AFS_hincr enclosedRange.upBnd, universeRange.upBnd⟩, none)
      else if AFS_hcmp universeRange.upBnd enclosedRange.upBnd = 0 then
        (some ⟨universeRange.lowBnd, AFS_hdecr enclosedRange.lowBnd⟩, none)
      else
        (some ⟨universeRange.lowBnd, AFS_hdecr enclosedRange.lowBnd⟩,
          some ⟨AFS_hincr enclosedRange.upBnd, universeRange.upBnd⟩)
    else (some universeRange, none)
  else (none, none)

end dce.tkm
