import Dce.Tkm.Hyper
import Dce.Tkm.Search

namespace dce.tkm

variable {φ ν : Type} {U R : tkm_byterange_t}

def tkm_byterange_t.toByteRange (r : tkm_byterange_t) : ByteRange := ⟨r.lowBnd.toNat, r.upBnd.toNat⟩

@[simp] theorem toByteRange_lowBnd (r : tkm_byterange_t) : r.toByteRange.lowBnd = r.lowBnd.toNat := rfl

@[simp] theorem toByteRange_upBnd (r : tkm_byterange_t) : r.toByteRange.upBnd = r.upBnd.toNat := rfl

def ByteRange.Has (r : ByteRange) (b : ℕ) : Prop := r.lowBnd ≤ b ∧ b ≤ r.upBnd

/-! The macros of the hypers say of two ranges what their values say -/

theorem isEmpty_toByteRange (r : tkm_byterange_t) : TKM_BYTERANGE_IS_EMPTY r = r.toByteRange.isEmpty :=
  decide_eq_decide.mpr afs_hyper_t.hcmp_lt

theorem hmin_toNat (a b : afs_hyper_t) : (TKM_BYTERANGE_HMIN a b).toNat = min a.toNat b.toNat := by
  rw [TKM_BYTERANGE_HMIN]
  split_ifs with hlt
  · exact (Nat.min_eq_left (afs_hyper_t.hcmp_lt.mp hlt).le).symm
  · exact (Nat.min_eq_right (not_lt.mp (mt afs_hyper_t.hcmp_lt.mpr hlt))).symm

theorem hmax_toNat (a b : afs_hyper_t) : (TKM_BYTERANGE_HMAX a b).toNat = max a.toNat b.toNat := by
  rw [TKM_BYTERANGE_HMAX]
  split_ifs with hgt
  · exact (Nat.max_eq_left (afs_hyper_t.hcmp_gt.mp hgt).le).symm
  · exact (Nat.max_eq_right (not_lt.mp (mt afs_hyper_t.hcmp_gt.mpr hgt))).symm

theorem disjoint_toByteRange (left right : tkm_byterange_t) :
    TKM_DISJOINT_BYTERANGES left right = left.toByteRange.disjoint right.toByteRange := by
  rw [TKM_DISJOINT_BYTERANGES, ByteRange.disjoint, isEmpty_toByteRange, isEmpty_toByteRange]
  refine congrArg _ (decide_eq_decide.mpr ?_)
  rw [afs_hyper_t.hcmp_lt, hmin_toNat, hmax_toNat]
  rfl

theorem isSubrange_toByteRange (sub range : tkm_byterange_t) :
    TKM_BYTERANGE_IS_SUBRANGE sub range = sub.toByteRange.isSubrange range.toByteRange :=
  decide_eq_decide.mpr (and_congr afs_hyper_t.hcmp_ge afs_hyper_t.hcmp_le)

theorem same_toByteRange : (AFS_hcmp U.lowBnd R.lowBnd ≠ 0 ∨ AFS_hcmp U.upBnd R.upBnd ≠ 0) ↔
    U.toByteRange ≠ R.toByteRange := by
  rw [Ne, Ne, afs_hyper_t.hcmp_zero, afs_hyper_t.hcmp_zero, Ne, tkm_byterange_t.toByteRange,
    tkm_byterange_t.toByteRange, ByteRange.mk.injEq]
  exact not_and_or.symm

theorem intersection_toByteRange (hmeet : TKM_DISJOINT_BYTERANGES U R = false) :
    (tkm_ByterangeIntersection U R).toByteRange =
      ⟨max U.lowBnd.toNat R.lowBnd.toNat, min U.upBnd.toNat R.upBnd.toNat⟩ := by
  rw [tkm_ByterangeIntersection, if_neg (by simp [hmeet]), tkm_byterange_t.toByteRange, hmax_toNat, hmin_toNat]

theorem meet_iff (left right : ByteRange) : left.disjoint right = false ↔
    left.lowBnd ≤ left.upBnd ∧ right.lowBnd ≤ right.upBnd ∧ max left.lowBnd right.lowBnd ≤ min left.upBnd right.upBnd := by
  simp only [ByteRange.disjoint, ByteRange.isEmpty, Bool.or_eq_false_iff, decide_eq_false_iff_not, not_lt, and_assoc]

theorem complement_toByteRange (U R : tkm_byterange_t) :
    ((tkm_ByterangeComplement U R).1.map (·.toByteRange), (tkm_ByterangeComplement U R).2.map (·.toByteRange)) =
      U.toByteRange.complement R.toByteRange := by
  rw [tkm_ByterangeComplement, ByteRange.complement, isSubrange_toByteRange]
  by_cases hsub : U.toByteRange.isSubrange R.toByteRange = true
  · rw [if_pos hsub, if_pos hsub]
    rfl
  rw [if_neg hsub, if_neg hsub]
  by_cases hsame : U.toByteRange = R.toByteRange
  · rw [if_neg (mt same_toByteRange.mp (not_not.mpr hsame)), if_pos hsame]
    rfl
  rw [if_pos (same_toByteRange.mpr hsame), if_neg hsame]
  by_cases hdisjoint : U.toByteRange.disjoint R.toByteRange = true
  · have hempty : TKM_BYTERANGE_IS_EMPTY (tkm_ByterangeIntersection U R) = true := by
      rw [tkm_ByterangeIntersection, if_pos ((disjoint_toByteRange U R).trans hdisjoint)]
      decide
    simp only [hempty, if_pos hdisjoint]
    rfl
  · have hmeet := Bool.eq_false_iff.mpr hdisjoint
    have hvalue := intersection_toByteRange ((disjoint_toByteRange U R).trans hmeet)
    obtain ⟨hU, hR, hboth⟩ := (meet_iff _ _).mp hmeet
    generalize tkm_ByterangeIntersection U R = enclosed at hvalue
    obtain ⟨hlow, hup⟩ := (ByteRange.mk.injEq ..).mp hvalue
    have hnotsub : ¬(R.lowBnd.toNat ≤ U.lowBnd.toNat ∧ U.upBnd.toNat ≤ R.upBnd.toNat) := fun hin =>
      hsub (decide_eq_true hin)
    simp only [toByteRange_lowBnd, toByteRange_upBnd] at hU hR hboth
    have hsome : TKM_BYTERANGE_IS_EMPTY enclosed = false := by
      rw [isEmpty_toByteRange, hvalue]
      exact decide_eq_false (not_lt.mpr hboth)
    simp only [hsome, Bool.not_false, if_true, if_neg hdisjoint]
    have hincr (hlt : enclosed.upBnd.toNat < U.upBnd.toNat) : (AFS_hincr enclosed.upBnd).toNat = enclosed.upBnd.toNat + 1 :=
      afs_hyper_t.hincr_toNat (lt_of_le_of_lt hlt U.upBnd.toNat_lt)
    -- which of the ends of the range are those of the common part
    by_cases hleft : U.toByteRange.lowBnd = max U.toByteRange.lowBnd R.toByteRange.lowBnd
    · have hleft' : U.lowBnd.toNat = max U.lowBnd.toNat R.lowBnd.toNat := hleft
      have hincr := hincr (by omega)
      rw [if_pos (afs_hyper_t.hcmp_zero.mpr (hleft'.trans hlow.symm)), if_pos hleft]
      simp only [Option.map_some, Option.map_none, tkm_byterange_t.toByteRange, hincr, hup]
    · have hleft' : ¬U.lowBnd.toNat = max U.lowBnd.toNat R.lowBnd.toNat := hleft
      have hdecr : (AFS_hdecr enclosed.lowBnd).toNat = enclosed.lowBnd.toNat - 1 := afs_hyper_t.hdecr_toNat (by omega)
      rw [if_neg (mt afs_hyper_t.hcmp_zero.mp (by omega)), if_neg hleft]
      by_cases hright : U.toByteRange.upBnd = min U.toByteRange.upBnd R.toByteRange.upBnd
      · have hright' : U.upBnd.toNat = min U.upBnd.toNat R.upBnd.toNat := hright
        rw [if_pos (afs_hyper_t.hcmp_zero.mpr (hright'.trans hup.symm)), if_pos hright]
        simp only [Option.map_some, Option.map_none, tkm_byterange_t.toByteRange, hdecr, hlow]
      · have hright' : ¬U.upBnd.toNat = min U.upBnd.toNat R.upBnd.toNat := hright
        have hincr := hincr (hup.trans_lt (lt_of_le_of_ne (Nat.min_le_left ..) (Ne.symm hright')))
        rw [if_neg (mt afs_hyper_t.hcmp_zero.mp fun heq => hright' (heq.trans hup)), if_neg hright]
        simp only [Option.map_some, tkm_byterange_t.toByteRange, hdecr, hincr, hlow, hup]

/-- What a complement is to be: the rest of a range, in pieces that are not empty and have no byte in common. -/
structure IsComplement (whole part : ByteRange) (pieces : Option ByteRange × Option ByteRange) : Prop where
  none_iff : pieces = (none, none) ↔ whole.Inside part
  first : pieces.1 = none → pieces.2 = none
  nonempty : ∀ r, pieces.1 = some r ∨ pieces.2 = some r → r.lowBnd ≤ r.upBnd
  apart : ∀ r r' b, pieces.1 = some r → pieces.2 = some r' → r.Has b → ¬r'.Has b
  has_iff : ∀ b, (∃ r, (pieces.1 = some r ∨ pieces.2 = some r) ∧ r.Has b) ↔ whole.Has b ∧ ¬part.Has b

namespace IsComplement

variable {whole part r r' : ByteRange}

theorem one (hnot : ¬whole.Inside part) (hr : r.lowBnd ≤ r.upBnd) (hhas : ∀ b, r.Has b ↔ whole.Has b ∧ ¬part.Has b) :
    IsComplement whole part (some r, none) where
  none_iff := iff_of_false (by simp) hnot
  first _ := rfl
  nonempty r' hr' := by
    obtain rfl : r = r' := by simpa using hr'
    exact hr
  apart _ _ _ _ habs := by cases habs
  has_iff b := by simpa using hhas b

theorem two (hnot : ¬whole.Inside part) (hr : r.lowBnd ≤ r.upBnd) (hr' : r'.lowBnd ≤ r'.upBnd)
    (hapart : ∀ b, r.Has b → ¬r'.Has b) (hhas : ∀ b, r.Has b ∨ r'.Has b ↔ whole.Has b ∧ ¬part.Has b) :
    IsComplement whole part (some r, some r') where
  none_iff := iff_of_false (by simp) hnot
  first habs := by cases habs
  nonempty s hs := by
    rcases hs with hs | hs
    · exact Option.some.inj hs ▸ hr
    · exact Option.some.inj hs ▸ hr'
  apart s s' b hs hs' := by
    obtain rfl := Option.some.inj hs
    obtain rfl := Option.some.inj hs'
    exact hapart b
  has_iff b := by
    rw [← hhas b]
    constructor
    · rintro ⟨s, hs | hs, hb⟩
      · exact .inl (Option.some.inj hs ▸ hb)
      · exact .inr (Option.some.inj hs ▸ hb)
    · rintro (hb | hb)
      · exact ⟨r, .inl rfl, hb⟩
      · exact ⟨r', .inr rfl, hb⟩

end IsComplement

theorem complement_isComplement {whole part : ByteRange} (hmeet : whole.disjoint part = false) :
    IsComplement whole part (whole.complement part) := by
  obtain ⟨hwhole, hpart, hboth⟩ := (meet_iff _ _).mp hmeet
  rw [ByteRange.complement]
  by_cases hsub : part.lowBnd ≤ whole.lowBnd ∧ whole.upBnd ≤ part.upBnd
  · have hinside : whole.isSubrange part = true := decide_eq_true hsub
    rw [if_pos hinside]
    refine ⟨iff_of_true rfl hsub, fun _ => rfl, by simp, by simp, fun b => iff_of_false (by simp) ?_⟩
    rintro ⟨hin, hout⟩
    exact hout ⟨hsub.1.trans hin.1, hin.2.trans hsub.2⟩
  have hsame : ¬whole = part := fun heq => hsub ⟨(congrArg ByteRange.lowBnd heq).ge, (congrArg ByteRange.upBnd heq).le⟩
  rw [if_neg (by simpa [ByteRange.isSubrange] using hsub), if_neg hsame, if_neg (by simp [hmeet])]
  by_cases hleft : whole.lowBnd = max whole.lowBnd part.lowBnd
  · rw [if_pos hleft]
    refine .one hsub ?_ fun b => ?_
    · dsimp only
      omega
    · simp only [ByteRange.Has]
      omega
  rw [if_neg hleft]
  by_cases hright : whole.upBnd = min whole.upBnd part.upBnd
  · rw [if_pos hright]
    refine .one hsub ?_ fun b => ?_
    · dsimp only
      omega
    · simp only [ByteRange.Has]
      omega
  · rw [if_neg hright]
    refine .two hsub ?_ ?_ (fun b => ?_) fun b => ?_
    · dsimp only
      omega
    · dsimp only
      omega
    · simp only [ByteRange.Has]
      omega
    · simp only [ByteRange.Has]
      omega

/-! The slices that are made of a token -/

variable {h : Heap φ ν} {issued requested : Token φ ν} {grant revoke : Types} {pool : List Ptr}

/-- The slices that come from the pieces of a range. -/
structure MadeOf (slice : Option (Slice φ ν)) (issued : Token φ ν) (grant : Types) (piece : Option ByteRange) : Prop where
  range : slice.map (·.2.range) = piece
  types : ∀ s ∈ slice, s.2.types = grant
  host : ∀ s ∈ slice, s.2.host = issued.host
  holder : ∀ s ∈ slice, s.2.holder = issued.holder

theorem makeSlice_exists (h : Heap φ ν) (issued : Token φ ν) (grant : Types) (piece : Option ByteRange)
    (hpool : 1 ≤ pool.length) :
    ∃ slice rest, makeSlice h issued grant piece pool = some (slice, rest) ∧ MadeOf slice issued grant piece ∧
      pool.length ≤ rest.length + 1 := by
  cases piece with
  | none => exact ⟨none, pool, rfl, ⟨rfl, by simp, by simp, by simp⟩, Nat.le_succ _⟩
  | some range =>
    cases pool with
    | nil => exact absurd hpool (by simp)
    | cons p rest =>
      refine ⟨_, rest, rfl, ⟨rfl, fun s hs => ?_, fun s hs => ?_, fun s hs => ?_⟩, le_rfl⟩
      all_goals exact Option.some.inj hs ▸ rfl

theorem tkm_MakeSliceNdice_exists (h : Heap φ ν) (requested issued : Token φ ν) (grant : Types) (hpool : 2 ≤ pool.length) :
    ∃ low high rest, tkm_MakeSliceNdice h requested issued grant pool = some (low, high, rest) ∧
      MadeOf low issued grant (issued.range.complement requested.range).1 ∧
      MadeOf high issued grant (issued.range.complement requested.range).2 ∧ pool.length ≤ rest.length + 2 := by
  obtain ⟨low, pool₁, hlow, hmadeLow, hlen₁⟩ := makeSlice_exists h issued grant
    (issued.range.complement requested.range).1 (show 1 ≤ pool.length by omega)
  obtain ⟨high, pool₂, hhigh, hmadeHigh, hlen₂⟩ := makeSlice_exists h issued grant
    (issued.range.complement requested.range).2 (show 1 ≤ pool₁.length by omega)
  refine ⟨low, high, pool₂, ?_, hmadeLow, hmadeHigh, by omega⟩
  simp only [tkm_MakeSliceNdice, hlow, hhigh, Option.bind_some, Option.map_some]

theorem makeSlices_exists {q : ConflictQ} {slices : List (Slice φ ν)} (hq : ∀ elem ∈ q, elem.token.isSome = true)
    (hpool : 2 * q.sliceNdiceNeeded ≤ pool.length) : (makeSlices h requested q pool slices).isSome = true := by
  induction q generalizing pool slices with
  | nil => rfl
  | cons elem q ih =>
    have hrest (elem' : ConflictElem) (hmem : elem' ∈ q) := hq elem' (List.mem_cons_of_mem _ hmem)
    rw [ConflictQ.sliceNdiceNeeded, List.countP_cons] at hpool
    rw [makeSlices]
    by_cases hgrant : elem.grant = ∅
    · rw [if_pos hgrant, Option.isSome_map]
      refine ih hrest ?_
      rw [ConflictQ.sliceNdiceNeeded]
      omega
    · rw [if_neg hgrant]
      rw [if_pos (by simpa using hgrant)] at hpool
      obtain ⟨p, hp⟩ := Option.isSome_iff_exists.mp (hq elem List.mem_cons_self)
      obtain ⟨low, high, rest, hmake, -, -, hlen⟩ := tkm_MakeSliceNdice_exists h requested (h.token p) elem.grant
        (show 2 ≤ pool.length by omega)
      simp only [hp, hmake, Option.bind_some, Option.isSome_map]
      refine ih hrest ?_
      rw [ConflictQ.sliceNdiceNeeded]
      omega

def Token.Holds (t : Token φ ν) (a : TokenType) (b : ℕ) : Prop := a ∈ t.types ∧ t.range.Has b

/-- What the holder has of a token and its slices when the conflicting types are revoked. -/
def LeavesRest (issued requested : Token φ ν) (revoke grant : Types) (slices : List (Slice φ ν)) : Prop :=
  ∀ a b, Token.Holds { issued with types := issued.types \ revoke } a b ∨ (∃ s ∈ slices, s.2.Holds a b) ↔
    issued.Holds a b ∧ (a ∈ revoke → a ∈ grant ∧ ¬requested.range.Has b)

theorem MadeOf.holds_iff {slice : Option (Slice φ ν)} {piece : Option ByteRange} (hmade : MadeOf slice issued grant piece)
    (a : TokenType) (b : ℕ) : (∃ s ∈ slice, s.2.Holds a b) ↔ a ∈ grant ∧ ∃ r, piece = some r ∧ r.Has b := by
  have hrange := hmade.range
  cases slice with
  | none =>
    subst hrange
    simp
  | some s =>
    have htypes := hmade.types s rfl
    subst hrange
    simp [Token.Holds, htypes]

theorem leavesRest {low high : Option (Slice φ ν)} {pieces : Option ByteRange × Option ByteRange}
    (hcomplement : IsComplement issued.range requested.range pieces) (hlow : MadeOf low issued grant pieces.1)
    (hhigh : MadeOf high issued grant pieces.2) (hgrant : grant ⊆ revoke) (hrevoke : revoke ⊆ issued.types) :
    LeavesRest issued requested revoke grant (low.toList ++ high.toList) := by
  intro a b
  have hslices : (∃ s ∈ low.toList ++ high.toList, s.2.Holds a b) ↔
      a ∈ grant ∧ issued.range.Has b ∧ ¬requested.range.Has b := by
    rw [← hcomplement.has_iff b]
    have hl := hlow.holds_iff a b
    have hh := hhigh.holds_iff a b
    constructor
    · rintro ⟨s, hs, hholds⟩
      rcases List.mem_append.mp hs with hs | hs
      · obtain ⟨ha, r, hr, hb⟩ := hl.mp ⟨s, Option.mem_toList.mp hs, hholds⟩
        exact ⟨ha, r, .inl hr, hb⟩
      · obtain ⟨ha, r, hr, hb⟩ := hh.mp ⟨s, Option.mem_toList.mp hs, hholds⟩
        exact ⟨ha, r, .inr hr, hb⟩
    · rintro ⟨ha, r, hr | hr, hb⟩
      · obtain ⟨s, hs, hholds⟩ := hl.mpr ⟨ha, r, hr, hb⟩
        exact ⟨s, List.mem_append_left _ (Option.mem_toList.mpr hs), hholds⟩
      · obtain ⟨s, hs, hholds⟩ := hh.mpr ⟨ha, r, hr, hb⟩
        exact ⟨s, List.mem_append_right _ (Option.mem_toList.mpr hs), hholds⟩
  rw [hslices, Token.Holds, Token.Holds, Finset.mem_sdiff]
  by_cases ha : a ∈ revoke
  · have hin := hrevoke ha
    by_cases hg : a ∈ grant <;> simp [ha, hin, hg]
  · have hg : a ∉ grant := fun hg => ha (hgrant hg)
    simp [ha, hg]

/-- The slices are what is left of a range that was in part asked for, and the pool of twice as many tokens as elements with
a range is enough for them. Ranges that meet are not empty. -/
theorem slices_exact (hmeet : TKM_DISJOINT_BYTERANGES U R = false) :
    IsComplement U.toByteRange R.toByteRange ((tkm_ByterangeComplement U R).1.map (·.toByteRange),
      (tkm_ByterangeComplement U R).2.map (·.toByteRange)) ∧
    (∀ (h : Heap φ ν) (issued requested : Token φ ν) (revoke grant : Types) (pool : List Ptr),
      issued.range = U.toByteRange → requested.range = R.toByteRange →
      tkm_RevokeReqd issued requested = some (revoke, grant) → 2 ≤ pool.length →
      ∃ low high rest, tkm_MakeSliceNdice h requested issued grant pool = some (low, high, rest) ∧
        MadeOf low issued grant ((tkm_ByterangeComplement U R).1.map (·.toByteRange)) ∧
        MadeOf high issued grant ((tkm_ByterangeComplement U R).2.map (·.toByteRange)) ∧
        LeavesRest issued requested revoke grant (low.toList ++ high.toList)) ∧
    ∀ (h : Heap φ ν) (requested : Token φ ν) (q : ConflictQ) (pool : List Ptr),
      (∀ elem ∈ q, elem.token.isSome = true) → pool.length = 2 * q.sliceNdiceNeeded →
      (makeSlices h requested q pool []).isSome = true := by
  have hcomplement : IsComplement U.toByteRange R.toByteRange (U.toByteRange.complement R.toByteRange) :=
    complement_isComplement ((disjoint_toByteRange U R).symm.trans hmeet)
  have hvalue := complement_toByteRange U R
  refine ⟨by rwa [hvalue], fun h issued requested revoke grant pool hissued hrequested hreqd hpool => ?_,
    fun h requested q pool hq hpool => makeSlices_exists hq hpool.ge⟩
  obtain ⟨low, high, rest, hmake, hlow, hhigh, -⟩ := tkm_MakeSliceNdice_exists h requested issued grant hpool
  obtain ⟨-, hgrant, hrevoke⟩ := tkm_RevokeReqd_some hreqd
  rw [hissued, hrequested, ← hvalue] at hlow hhigh
  refine ⟨low, high, rest, hmake, hlow, hhigh, leavesRest ?_ hlow hhigh hgrant hrevoke⟩
  rw [hissued, hrequested, hvalue]
  exact hcomplement

theorem slices_exact_middle :
    TKM_DISJOINT_BYTERANGES ⟨⟨0, 0⟩, ⟨1, 9⟩⟩ ⟨⟨0, 3⟩, ⟨1, 0⟩⟩ = false ∧
      IsComplement ⟨0, 4294967305⟩ ⟨3, 4294967296⟩ (some ⟨0, 2⟩, some ⟨4294967297, 4294967305⟩) :=
  ⟨by decide, (slices_exact (φ := Unit) (ν := Unit) (U := ⟨⟨0, 0⟩, ⟨1, 9⟩⟩) (R := ⟨⟨0, 3⟩, ⟨1, 0⟩⟩) (by decide)).1⟩

end dce.tkm
