import Dce.Tkm.SliceRanges
import Dce.Tkm.TypeWords

namespace dce.tkm.word

def TKM_TOKEN_ISVOL : BitVec 32 := 1

/-- What the search reads of a `tkm_internalToken_t`. Types behind the last one are refused by `tkm_GetToken`. -/
structure tkm_internalToken_t where
  types : BitVec 32
  range : tkm_byterange_t
  host : Host
  flags : BitVec 32
  types_lt : types.toNat < 2 ^ TKM_ALL_TOKENS

/-- `tkm_tokenList_t`, with the one word of its mask that the search reads. -/
structure tkm_tokenList_t where
  typeSum : BitVec 32
  list : List Ptr

structure tkm_tokenConflictElem_t where
  revoke : BitVec 32
  grant : BitVec 32
  token : Option Ptr
  grantLow : Option Ptr
  grantHigh : Option Ptr

/-- `tkm_tokenConflictQ_t`, where `elements` has room for `allocElements`. -/
structure tkm_tokenConflictQ_t where
  allocElements : ℕ
  sliceNdiceNeeded : ℕ
  lastPos : ℕ
  numElements : ℕ
  elements : List tkm_tokenConflictElem_t

/-- An element after `bzero`. -/
def zeroElem : tkm_tokenConflictElem_t := ⟨0, 0, none, none, none⟩

def tkm_InitConflictQ (num : ℕ) : tkm_tokenConflictQ_t := ⟨num, 0, 0, 0, List.replicate num zeroElem⟩

/-- `tkm_AddToConflictQ`: nothing comes of a failed assertion or of a write behind the elements. -/
def tkm_AddToConflictQ (q : tkm_tokenConflictQ_t) (tokenP : Ptr) (revokeSet sliceSet : BitVec 32) :
    Option tkm_tokenConflictQ_t :=
  let pos := q.lastPos
  if pos ≤ q.allocElements then
    (q.elements[pos]?).map fun elem =>
      { q with
        lastPos := pos + 1
        elements := q.elements.set pos
          { elem with token := some tokenP, revoke := revokeSet, grant := if sliceSet ≠ 0 then sliceSet else elem.grant }
        sliceNdiceNeeded := if sliceSet ≠ 0 then q.sliceNdiceNeeded + 1 else q.sliceNdiceNeeded
        numElements := q.numElements + 1 }
  else none

def TKM_CONFLICTQ_ISEMPTY (q : tkm_tokenConflictQ_t) : Bool := decide (q.numElements = 0)

variable (beyond : CtableMemory)

/-- `tkm_RevokeReqd`, with what it leaves in `*revokeSetP` and `*sliceSetP` when it returns 1. -/
def tkm_RevokeReqd (issuedP requestedP : tkm_internalToken_t) : Option (BitVec 32 × BitVec 32) :=
  if issuedP.host = requestedP.host then none
  else
    let overlap := !(decide (TKM_TYPES_WITH_RANGE issuedP.types = 0) ||
      decide (TKM_TYPES_WITH_RANGE requestedP.types = 0) || TKM_DISJOINT_BYTERANGES issuedP.range requestedP.range)
    let requestedTypes := if overlap then requestedP.types else TKM_TYPES_WITHOUT_RANGE requestedP.types
    let conflicts := TKM_TYPE_CONFLICTS beyond requestedTypes
    let totalConflicts := issuedP.types &&& conflicts
    if totalConflicts ≠ 0 then
      some (totalConflicts,
        if issuedP.flags &&& TKM_TOKEN_ISVOL = 0 ∧ requestedP.flags &&& TKM_TOKEN_ISVOL = 0 then
          TKM_TYPES_WITH_RANGE totalConflicts
        else 0)
    else none

section Search

variable (token : Ptr → tkm_internalToken_t) (requestedP : tkm_internalToken_t) (maxnum : ℕ)

/-- The loop of `tkm_ConflictingTokens`, with `confTokens`, the other hosts' types and the queue so far. -/
def searchLoop : List Ptr → ℕ → BitVec 32 → tkm_tokenConflictQ_t → Option (tkm_tokenConflictQ_t × BitVec 32)
  | [], _, otherHostMask, q => some (q, otherHostMask)
  | granted :: rest, confTokens, otherHostMask, q =>
    match tkm_RevokeReqd beyond (token granted) requestedP with
    | some (revokeSet, sliceSet) =>
      (tkm_AddToConflictQ q granted revokeSet sliceSet).bind fun q =>
        if confTokens + 1 = maxnum then some (q, otherHostMask)
        else searchLoop rest (confTokens + 1) otherHostMask q
    | none =>
      searchLoop rest confTokens
        (if (token granted).host ≠ requestedP.host then otherHostMask ||| (token granted).types else otherHostMask) q

/-- `tkm_ConflictingTokens`: the queue, or `NULL`, and `*otherHostMaskP`. -/
def tkm_ConflictingTokens (issuedP : tkm_tokenList_t) : Option (Option tkm_tokenConflictQ_t × BitVec 32) :=
  if TKM_TYPE_CONFLICTS beyond issuedP.typeSum &&& requestedP.types = 0 then some (none, issuedP.typeSum)
  else
    (searchLoop beyond token requestedP maxnum issuedP.list 0 0 (tkm_InitConflictQ maxnum)).map
      fun (conflictingTokens, otherHostMask) =>
        (if TKM_CONFLICTQ_ISEMPTY conflictingTokens then none else some conflictingTokens, otherHostMask)

end Search

/-! The pairwise definition -/

/-- Both tokens have a type with a range, and their ranges have a byte in common. -/
def Overlap (issuedP requestedP : tkm_internalToken_t) : Prop :=
  (∃ a ∈ typesOf issuedP.types, ranged a = true) ∧ (∃ a ∈ typesOf requestedP.types, ranged a = true) ∧
    ∃ b, issuedP.range.toByteRange.Has b ∧ requestedP.range.toByteRange.Has b

/-- A type of a granted token conflicts with a type of the request; those with a range count when both tokens overlap. -/
def ConflictingType (issuedP requestedP : tkm_internalToken_t) (a : TokenType) : Prop :=
  a ∈ typesOf issuedP.types ∧
    ∃ b ∈ typesOf requestedP.types, tkm.ctable a b = true ∧ (ranged a = true ∨ ranged b = true → Overlap issuedP requestedP)

/-- A granted token of another host has a type that conflicts with the request. -/
def Conflicting (requestedP issuedP : tkm_internalToken_t) : Prop :=
  issuedP.host ≠ requestedP.host ∧ ∃ a, ConflictingType issuedP requestedP a

theorem common_byte_iff (left right : ByteRange) : (∃ b, left.Has b ∧ right.Has b) ↔ left.disjoint right = false := by
  rw [meet_iff]
  constructor
  · rintro ⟨b, ⟨hlow, hup⟩, hlow', hup'⟩
    omega
  · rintro ⟨hleft, hright, hmeet⟩
    exact ⟨max left.lowBnd right.lowBnd, ⟨by omega, by omega⟩, by omega, by omega⟩

instance (issuedP requestedP : tkm_internalToken_t) : Decidable (Overlap issuedP requestedP) :=
  decidable_of_iff _ (and_congr_right' (and_congr_right' (common_byte_iff ..).symm))

instance (issuedP requestedP : tkm_internalToken_t) (a : TokenType) : Decidable (ConflictingType issuedP requestedP a) :=
  inferInstanceAs (Decidable (_ ∧ _))

instance (requestedP issuedP : tkm_internalToken_t) : Decidable (Conflicting requestedP issuedP) :=
  inferInstanceAs (Decidable (_ ∧ _))

/-- The types of a granted token that conflict with the request. -/
def conflictingTypes (issuedP requestedP : tkm_internalToken_t) : Types :=
  Finset.univ.filter (ConflictingType issuedP requestedP)

def slicedTypes (issuedP requestedP : tkm_internalToken_t) : Types :=
  if issuedP.flags &&& TKM_TOKEN_ISVOL = 0 ∧ requestedP.flags &&& TKM_TOKEN_ISVOL = 0 then
    (conflictingTypes issuedP requestedP).filter fun a => ranged a = true
  else ∅

variable {issuedP requestedP : tkm_internalToken_t}

theorem tkm_internalToken_t.denotes (t : tkm_internalToken_t) : Denotes t.types (typesOf t.types) :=
  denotes_typesOf t.types_lt

theorem overlap_iff (issuedP requestedP : tkm_internalToken_t) :
    (!(decide (TKM_TYPES_WITH_RANGE issuedP.types = 0) || decide (TKM_TYPES_WITH_RANGE requestedP.types = 0) ||
      TKM_DISJOINT_BYTERANGES issuedP.range requestedP.range)) = true ↔ Overlap issuedP requestedP := by
  have hranged (t : tkm_internalToken_t) : ¬TKM_TYPES_WITH_RANGE t.types = 0 ↔ ∃ a ∈ typesOf t.types, ranged a = true := by
    rw [t.denotes.withRange.eq_zero_iff, ← Ne, ← Finset.nonempty_iff_ne_empty, Finset.Nonempty]
    exact exists_congr fun a => mem_withRange
  rw [Overlap, ← hranged, ← hranged, common_byte_iff, disjoint_toByteRange]
  simp [and_assoc]

theorem conflictingTypes_eq (issuedP requestedP : tkm_internalToken_t) :
    conflictingTypes issuedP requestedP = typesOf issuedP.types ∩
      tkm.TKM_TYPE_CONFLICTS (if Overlap issuedP requestedP then typesOf requestedP.types
        else tkm.TKM_TYPES_WITHOUT_RANGE (typesOf requestedP.types)) := by
  ext a
  rw [conflictingTypes, Finset.mem_filter, Finset.mem_inter, mem_conflicts, ConflictingType, and_iff_right (Finset.mem_univ a)]
  refine and_congr_right fun _ => exists_congr fun b => ?_
  by_cases hoverlap : Overlap issuedP requestedP
  · rw [if_pos hoverlap, tkm.ctable_comm b a]
    exact and_congr_right fun _ => and_iff_left fun _ => hoverlap
  · rw [if_neg hoverlap, mem_withoutRange, tkm.ctable_comm b a, and_assoc]
    refine and_congr_right fun _ => ?_
    rw [and_comm]
    refine and_congr_left fun hpair => ?_
    have hsame := ranged_of_ctable hpair
    simp [hsame, hoverlap]

theorem totalConflicts_denotes (issuedP requestedP : tkm_internalToken_t) :
    Denotes (issuedP.types &&& TKM_TYPE_CONFLICTS beyond
      (if (!(decide (TKM_TYPES_WITH_RANGE issuedP.types = 0) || decide (TKM_TYPES_WITH_RANGE requestedP.types = 0) ||
        TKM_DISJOINT_BYTERANGES issuedP.range requestedP.range)) = true then requestedP.types
        else TKM_TYPES_WITHOUT_RANGE requestedP.types)) (conflictingTypes issuedP requestedP) := by
  rw [conflictingTypes_eq]
  by_cases hoverlap : Overlap issuedP requestedP
  · rw [if_pos hoverlap, if_pos ((overlap_iff ..).mpr hoverlap)]
    exact issuedP.denotes.inter_conflicts beyond requestedP.denotes
  · rw [if_neg hoverlap, if_neg (mt (overlap_iff ..).mp hoverlap)]
    exact issuedP.denotes.inter_conflicts beyond requestedP.denotes.withoutRange

theorem conflicting_iff : Conflicting requestedP issuedP ↔
    issuedP.host ≠ requestedP.host ∧ conflictingTypes issuedP requestedP ≠ ∅ := by
  rw [Conflicting, ← Finset.nonempty_iff_ne_empty, Finset.Nonempty]
  simp [conflictingTypes]

theorem tkm_RevokeReqd_none (hnot : ¬Conflicting requestedP issuedP) : tkm_RevokeReqd beyond issuedP requestedP = none := by
  by_cases hhost : issuedP.host = requestedP.host
  · rw [tkm_RevokeReqd, if_pos hhost]
  · have hempty : conflictingTypes issuedP requestedP = ∅ := by
      by_contra hne
      exact hnot (conflicting_iff.mpr ⟨hhost, hne⟩)
    have hzero := (totalConflicts_denotes beyond issuedP requestedP).eq_zero_iff.mpr hempty
    rw [tkm_RevokeReqd, if_neg hhost]
    exact if_neg (not_not.mpr hzero)

theorem tkm_RevokeReqd_some (hconflict : Conflicting requestedP issuedP) :
    ∃ revokeSet sliceSet, tkm_RevokeReqd beyond issuedP requestedP = some (revokeSet, sliceSet) ∧
      Denotes revokeSet (conflictingTypes issuedP requestedP) ∧ Denotes sliceSet (slicedTypes issuedP requestedP) := by
  obtain ⟨hhost, hne⟩ := conflicting_iff.mp hconflict
  have hdenotes := totalConflicts_denotes beyond issuedP requestedP
  obtain ⟨revokeSet, hrevoke, hreturn⟩ : ∃ revokeSet, Denotes revokeSet (conflictingTypes issuedP requestedP) ∧
      tkm_RevokeReqd beyond issuedP requestedP = some (revokeSet,
        if issuedP.flags &&& TKM_TOKEN_ISVOL = 0 ∧ requestedP.flags &&& TKM_TOKEN_ISVOL = 0 then
          TKM_TYPES_WITH_RANGE revokeSet
        else 0) := by
    refine ⟨_, hdenotes, ?_⟩
    rw [tkm_RevokeReqd, if_neg hhost]
    exact if_pos (mt hdenotes.eq_zero_iff.mp hne)
  refine ⟨revokeSet, _, hreturn, hrevoke, ?_⟩
  rw [slicedTypes]
  by_cases hfile : issuedP.flags &&& TKM_TOKEN_ISVOL = 0 ∧ requestedP.flags &&& TKM_TOKEN_ISVOL = 0
  · rw [if_pos hfile, if_pos hfile]
    exact hrevoke.withRange
  · rw [if_neg hfile, if_neg hfile]
    exact denotes_zero

/-! The search -/

/-- An element of the queue says what is to be revoked of a token and what can be sliced. -/
structure IsElement (token : Ptr → tkm_internalToken_t) (requestedP : tkm_internalToken_t) (p : Ptr)
    (elem : tkm_tokenConflictElem_t) : Prop where
  token_eq : elem.token = some p
  revoke : Denotes elem.revoke (conflictingTypes (token p) requestedP)
  grant : Denotes elem.grant (slicedTypes (token p) requestedP)
  grantLow : elem.grantLow = none
  grantHigh : elem.grantHigh = none

/-- A queue with elements for some tokens, in their order, and no others. -/
structure QueueOf (token : Ptr → tkm_internalToken_t) (requestedP : tkm_internalToken_t) (maxnum : ℕ) (found : List Ptr)
    (q : tkm_tokenConflictQ_t) : Prop where
  allocElements : q.allocElements = maxnum
  lastPos : q.lastPos = found.length
  numElements : q.numElements = found.length
  elements : ∃ queued, List.Forall₂ (IsElement token requestedP) found queued ∧
    q.elements = queued ++ List.replicate (maxnum - found.length) zeroElem

variable {beyond} {token : Ptr → tkm_internalToken_t} {maxnum : ℕ} {found : List Ptr} {q q' : tkm_tokenConflictQ_t}
  {p : Ptr}

theorem QueueOf.init (token : Ptr → tkm_internalToken_t) (requestedP : tkm_internalToken_t) :
    QueueOf token requestedP maxnum [] (tkm_InitConflictQ maxnum) :=
  ⟨rfl, rfl, rfl, [], .nil, rfl⟩

theorem tkm_AddToConflictQ_spec (hq : QueueOf token requestedP maxnum found q) (hroom : found.length < maxnum)
    {revokeSet sliceSet : BitVec 32} (hrevoke : Denotes revokeSet (conflictingTypes (token p) requestedP))
    (hslice : Denotes sliceSet (slicedTypes (token p) requestedP)) :
    ∃ q', tkm_AddToConflictQ q p revokeSet sliceSet = some q' ∧ QueueOf token requestedP maxnum (found ++ [p]) q' := by
  obtain ⟨queued, hqueued, helements⟩ := hq.elements
  obtain ⟨rest, hrest⟩ : ∃ rest, maxnum - found.length = rest + 1 := ⟨maxnum - found.length - 1, by omega⟩
  have hlen : queued.length = q.lastPos := hqueued.length_eq.symm.trans hq.lastPos.symm
  have hpos : q.lastPos ≤ q.allocElements := by
    rw [hq.lastPos, hq.allocElements]
    exact hroom.le
  rw [hrest, List.replicate_succ] at helements
  have hget : q.elements[q.lastPos]? = some zeroElem := by
    rw [helements, ← hlen, List.getElem?_append_right le_rfl, Nat.sub_self]
    rfl
  have hgrant : (if sliceSet ≠ 0 then sliceSet else zeroElem.grant) = sliceSet := by
    split_ifs with hslice
    · rfl
    · exact (not_not.mp hslice).symm
  refine ⟨_, by rw [tkm_AddToConflictQ, if_pos hpos, hget, Option.map_some], ?_⟩
  refine ⟨hq.allocElements, by simp [hq.lastPos], by simp [hq.numElements],
    queued ++ [⟨revokeSet, if sliceSet ≠ 0 then sliceSet else zeroElem.grant, some p, none, none⟩], ?_, ?_⟩
  · exact List.rel_append hqueued (.cons ⟨rfl, hrevoke, hgrant.symm ▸ hslice, rfl, rfl⟩ .nil)
  · rw [helements, ← hlen, List.set_append_right _ _ le_rfl, Nat.sub_self, List.set_cons_zero, List.append_assoc,
      List.length_append, List.length_singleton, show maxnum - (found.length + 1) = rest by omega]
    rfl

/-- The granted tokens of a list that conflict with the request. -/
def conflicting (token : Ptr → tkm_internalToken_t) (requestedP : tkm_internalToken_t) (list : List Ptr) : List Ptr :=
  list.filter fun p => Conflicting requestedP (token p)

theorem conflicting_cons_of_pos {list : List Ptr} (hconflict : Conflicting requestedP (token p)) :
    conflicting token requestedP (p :: list) = p :: conflicting token requestedP list :=
  List.filter_cons_of_pos (decide_eq_true hconflict)

theorem conflicting_cons_of_neg {list : List Ptr} (hnot : ¬Conflicting requestedP (token p)) :
    conflicting token requestedP (p :: list) = conflicting token requestedP list :=
  List.filter_cons_of_neg (by simpa using hnot)

/-- A token that does not conflict and belongs to another host is in the mask. -/
def Masked (token : Ptr → tkm_internalToken_t) (requestedP : tkm_internalToken_t) (p : Ptr) (mask : BitVec 32) : Prop :=
  (token p).host ≠ requestedP.host → ¬Conflicting requestedP (token p) →
    ∀ n, (token p).types.getLsbD n = true → mask.getLsbD n = true

theorem searchLoop_spec (beyond : CtableMemory) (list : List Ptr) (mask : BitVec 32)
    (hq : QueueOf token requestedP maxnum found q) (hroom : found.length < maxnum) :
    ∃ q' mask', searchLoop beyond token requestedP maxnum list found.length mask q = some (q', mask') ∧
      QueueOf token requestedP maxnum (found ++ (conflicting token requestedP list).take (maxnum - found.length)) q' ∧
      (∀ n, mask.getLsbD n = true → mask'.getLsbD n = true) ∧
      ∀ before p after, list = before ++ p :: after →
        found.length + (conflicting token requestedP before).length < maxnum → Masked token requestedP p mask' := by
  induction list generalizing found mask q with
  | nil =>
    refine ⟨q, mask, rfl, ?_, fun _ hbit => hbit, fun before p after habs => ?_⟩
    · simpa [conflicting] using hq
    · simp at habs
  | cons granted rest ih =>
    by_cases hconflict : Conflicting requestedP (token granted)
    · obtain ⟨revokeSet, sliceSet, hreturn, hrevoke, hslice⟩ := tkm_RevokeReqd_some beyond hconflict
      obtain ⟨q₁, hadd, hq₁⟩ := tkm_AddToConflictQ_spec hq hroom hrevoke hslice
      obtain ⟨room, hsplit⟩ : ∃ room, maxnum - found.length = room + 1 := ⟨maxnum - found.length - 1, by omega⟩
      simp only [searchLoop, hreturn, hadd, Option.bind_some, conflicting_cons_of_pos hconflict, hsplit, List.take_succ_cons]
      by_cases hfull : found.length + 1 = maxnum
      · -- the queue is full, and the rest is not examined
        rw [if_pos hfull]
        obtain rfl : room = 0 := by omega
        refine ⟨q₁, mask, rfl, hq₁, fun _ hbit => hbit, fun before p after hlist hlt => ?_⟩
        cases before with
        | nil =>
          obtain ⟨rfl, -⟩ := List.cons.inj hlist
          exact fun _ hnot => absurd hconflict hnot
        | cons first before =>
          obtain ⟨rfl, -⟩ := List.cons.inj hlist
          rw [conflicting_cons_of_pos hconflict, List.length_cons] at hlt
          omega
      · rw [if_neg hfull]
        have hlen : (found ++ [granted]).length = found.length + 1 := by simp
        obtain ⟨q₂, mask₂, hloop, hq₂, hkept, hmasked⟩ := ih mask hq₁ (by rw [hlen]; omega)
        rw [hlen] at hloop hq₂ hmasked
        refine ⟨q₂, mask₂, hloop, ?_, hkept, fun before p after hlist hlt => ?_⟩
        · rwa [show maxnum - (found.length + 1) = room by omega, List.append_assoc] at hq₂
        · cases before with
          | nil =>
            obtain ⟨rfl, -⟩ := List.cons.inj hlist
            exact fun _ hnot => absurd hconflict hnot
          | cons first before =>
            obtain ⟨rfl, htail⟩ := List.cons.inj hlist
            rw [conflicting_cons_of_pos hconflict, List.length_cons] at hlt
            exact hmasked before p after htail (by omega)
    · simp only [searchLoop, tkm_RevokeReqd_none beyond hconflict, conflicting_cons_of_neg hconflict]
      obtain ⟨q', mask', hloop, hq', hkept, hmasked⟩ := ih _ hq hroom
      refine ⟨q', mask', hloop, hq', fun n hbit => hkept n ?_, fun before p after hlist hlt => ?_⟩
      · split_ifs
        · exact (BitVec.getLsbD_or ..).trans (Bool.or_eq_true .. ▸ .inl hbit)
        · exact hbit
      · cases before with
        | nil =>
          obtain ⟨rfl, -⟩ := List.cons.inj hlist
          intro hhost _ n hbit
          refine hkept n ?_
          rw [if_pos hhost, BitVec.getLsbD_or, hbit, Bool.or_true]
        | cons first before =>
          obtain ⟨rfl, htail⟩ := List.cons.inj hlist
          rw [conflicting_cons_of_neg hconflict] at hlt
          exact hmasked before p after htail hlt

/-! The mask -/

/-- The mask of a list has the types of its tokens and no others. -/
def Exact (token : Ptr → tkm_internalToken_t) (issuedP : tkm_tokenList_t) : Prop :=
  ∀ n, issuedP.typeSum.getLsbD n = true ↔ ∃ p ∈ issuedP.list, (token p).types.getLsbD n = true

variable {issued : tkm_tokenList_t}

theorem Exact.denotes (hmask : Exact token issued) : Denotes issued.typeSum (typesOf issued.typeSum) := by
  refine denotes_typesOf (Nat.lt_pow_two_of_testBit _ fun n hn => ?_)
  rw [BitVec.testBit_toNat]
  by_contra hbit
  obtain ⟨p, -, hp⟩ := (hmask n).mp (by simpa using hbit)
  exact absurd ((token p).denotes.bit_lt hp) (not_lt.mpr hn)

theorem Exact.conflicting_nil (hmask : Exact token issued)
    (hzero : TKM_TYPE_CONFLICTS beyond issued.typeSum &&& requestedP.types = 0) :
    conflicting token requestedP issued.list = [] := by
  refine List.filter_eq_nil_iff.mpr fun p hp hconflict => ?_
  obtain ⟨-, a, ha, b, hb, hpair, -⟩ := of_decide_eq_true hconflict
  have hsum : a ∈ typesOf issued.typeSum :=
    (hmask.denotes.bit_iff a).mp ((hmask a.number).mpr ⟨p, hp, ((token p).denotes.bit_iff a).mpr ha⟩)
  have hbit := (hmask.denotes.conflicts_bit_iff beyond b).mpr (mem_conflicts.mpr ⟨a, hsum, hpair⟩)
  have hand := congrArg (·.getLsbD b.number) hzero
  simp only [BitVec.getLsbD_and, hbit, (requestedP.denotes.bit_iff b).mpr hb] at hand
  simp at hand

theorem QueueOf.isEmpty_iff (hq : QueueOf token requestedP maxnum found q) :
    TKM_CONFLICTQ_ISEMPTY q = true ↔ found = [] := by
  rw [TKM_CONFLICTQ_ISEMPTY, decide_eq_true_eq, hq.numElements, List.length_eq_zero_iff]

/-- A search with an exact mask queues the first granted tokens that conflict with the request, with what is to be revoked of
each one, and returns no queue when there are none. Its mask has the types of the tokens of other hosts it passed by. -/
theorem conflict_search_exact (beyond : CtableMemory) (token : Ptr → tkm_internalToken_t)
    (requestedP : tkm_internalToken_t) (issued : tkm_tokenList_t) (maxnum : ℕ) (hmask : Exact token issued)
    (hpos : 0 < maxnum) :
    ∃ queue otherHostMask, tkm_ConflictingTokens beyond token requestedP maxnum issued = some (queue, otherHostMask) ∧
      (queue = none ↔ conflicting token requestedP issued.list = []) ∧
      (∀ q, queue = some q →
        QueueOf token requestedP maxnum ((conflicting token requestedP issued.list).take maxnum) q) ∧
      ∀ before p after, issued.list = before ++ p :: after → (conflicting token requestedP before).length < maxnum →
        Masked token requestedP p otherHostMask := by
  rw [tkm_ConflictingTokens]
  by_cases hzero : TKM_TYPE_CONFLICTS beyond issued.typeSum &&& requestedP.types = 0
  · rw [if_pos hzero]
    refine ⟨none, issued.typeSum, rfl, iff_of_true rfl (hmask.conflicting_nil hzero), by simp, ?_⟩
    intro before p after hlist _ _ _ n hbit
    exact (hmask n).mpr ⟨p, hlist ▸ List.mem_append_right _ List.mem_cons_self, hbit⟩
  · rw [if_neg hzero]
    obtain ⟨q, mask, hloop, hq, -, hmasked⟩ := searchLoop_spec beyond issued.list 0
      (QueueOf.init token requestedP) hpos
    rw [List.length_nil] at hloop
    rw [List.nil_append, List.length_nil, Nat.sub_zero] at hq
    refine ⟨_, mask, by rw [hloop, Option.map_some], ?_, fun q' hq' => ?_, fun before p after hlist hlt => ?_⟩
    · rw [ite_eq_left_iff, not_imp_comm, hq.isEmpty_iff, List.take_eq_nil_iff]
      simp [hpos.ne']
    · split_ifs at hq'
      exact Option.some.inj hq' ▸ hq
    · exact hmasked before p after hlist (by rwa [List.length_nil, Nat.zero_add])

private def writeSome : tkm_internalToken_t := ⟨8, ⟨⟨0, 5⟩, ⟨0, 20⟩⟩, 1, 0, by decide⟩

/-- The other tokens of the file: one to read the first bytes, and one to read the status. -/
private def readFirst (p : Ptr) : tkm_internalToken_t :=
  if p = 0 then ⟨4, ⟨⟨0, 0⟩, ⟨0, 9⟩⟩, 2, 0, by decide⟩ else ⟨0x400, ⟨⟨0, 0⟩, ⟨0, 0⟩⟩, 3, 0, by decide⟩

theorem conflict_search_exact_write :
    ∃ queue otherHostMask, tkm_ConflictingTokens (fun _ => 1) readFirst writeSome 40 ⟨0x404, [0, 1]⟩ =
        some (queue, otherHostMask) ∧
      (queue = none ↔ conflicting readFirst writeSome [0, 1] = []) ∧
      (∀ q, queue = some q → QueueOf readFirst writeSome 40 ((conflicting readFirst writeSome [0, 1]).take 40) q) ∧
      ∀ before p after, [0, 1] = before ++ p :: after → (conflicting readFirst writeSome before).length < 40 →
        Masked readFirst writeSome p otherHostMask := by
  refine conflict_search_exact _ _ _ ⟨0x404, [0, 1]⟩ _ (fun n => ?_) (by decide)
  rw [show (0x404 : BitVec 32) = 4 ||| 0x400 by decide, BitVec.getLsbD_or, Bool.or_eq_true]
  simp [readFirst]

end dce.tkm.word
