import Dce.Epi.MarkedBits
import Dce.Lib.BlockCounts

open lib

namespace dce.episode.bitmap

variable {page page' : bitmapPage} {h h' : allocationData} {firstFrag nFrags b : ℕ} {alloc : Bool} {logged flag flag' : ℤ}

def pageBlocks (page : bitmapPage) (h : allocationData) : ℤ :=
  wholeBlocks (fragFree page h) h.fragmentsPerBlock h.blocksPerPage

/-- The free fragments of a page in blocks that are used in part. -/
def pageFrags (page : bitmapPage) (h : allocationData) : ℤ :=
  partPlaces (fragFree page h) h.fragmentsPerBlock h.blocksPerPage

def blockFull (page : bitmapPage) (h : allocationData) (b : ℕ) : Prop :=
  ∀ j < h.fragmentsPerBlock, ¬fragFree page h (b * h.fragmentsPerBlock + j)

instance (page : bitmapPage) (h : allocationData) (b : ℕ) : Decidable (blockFull page h b) :=
  inferInstanceAs (Decidable (∀ j < _, ¬fragFree page h (_ + j)))

def SameGeometry (h h' : allocationData) : Prop := h' = { h with blocksFree := h'.blocksFree, fragsFree := h'.fragsFree }

/-- A change of a page that the counts follow. -/
structure Balanced (page : bitmapPage) (h : allocationData) (page' : bitmapPage) (h' : allocationData) : Prop where
  header : SameHeader page page'
  geometry : SameGeometry h h'
  blocks : h.blocksFreeValid = true → h'.blocksFree - pageBlocks page' h = h.blocksFree - pageBlocks page h
  frags : h.blocksFreeValid = true → h'.fragsFree - pageFrags page' h = h.fragsFree - pageFrags page h

theorem setLogged_bits {block : ℕ} (hblock : block / 8 < h.loggedLength) (hset : setLogged logged block page = some page') :
    SameHeader page page' ∧ BitsArray page' h = BitsArray page h := by
  rw [setLogged] at hset
  by_cases hkind : logged ≠ if isLogged page block then 1 else 0
  · rw [if_pos hkind, SET_LOGGED_BYTE, SET_BITMAP_BYTE, Option.ite_none_left_eq_some] at hset
    obtain rfl := Option.some.inj hset.2
    refine ⟨rfl, funext fun j => Function.update_of_ne ?_ ..⟩
    rw [Nat.shiftRight_eq_div_pow]
    omega
  · rw [if_neg hkind] at hset
    obtain rfl := Option.some.inj hset
    exact ⟨rfl, rfl⟩

theorem setKind_bits {block : ℕ} (hblock : block / 8 < h.loggedLength)
    (hset : setKind logged block alloc flag page = some page') :
    SameHeader page page' ∧ BitsArray page' h = BitsArray page h := by
  rw [setKind] at hset
  split_ifs at hset
  · exact setLogged_bits hblock hset
  · obtain rfl := Option.some.inj hset
    exact ⟨rfl, rfl⟩

theorem fragFree_congr (hbits : BitsArray page' h = BitsArray page h) (k : ℕ) : fragFree page' h k ↔ fragFree page h k := by
  rw [fragFree, fragFree, hbits]

/-- The counts after the marking of a part of a block. -/
def partCounts (page' : bitmapPage) (h : allocationData) (firstFrag nFrags : ℕ) (alloc : Bool) (flag : ℤ) : allocationData :=
  if alloc then countAlloc h nFrags (decide (blockState page' h firstFrag alloc flag ≠ 0))
  else countFree h nFrags (decide (blockState page' h firstFrag alloc flag ≠ 0))

theorem MarkFrags_part (hh : h.Formatted) (hpos : 0 < nFrags) (hlt : nFrags < h.fragmentsPerBlock)
    (hmark : MarkFrags page h logged firstFrag nFrags alloc flag = some (page', h', flag')) :
    Marked page page' h firstFrag nFrags alloc ∧ h' = partCounts page' h firstFrag nFrags alloc flag := by
  rw [MarkFrags, if_neg (by omega)] at hmark
  obtain ⟨page₁, hbits, hmark⟩ := Option.bind_eq_some_iff.mp hmark
  rw [if_pos hlt, markPart, Option.ite_none_left_eq_some] at hmark
  obtain ⟨page₂, hkind, hmark⟩ := Option.bind_eq_some_iff.mp hmark.2
  have hm := markBits_marked hpos hbits
  -- the block of the fragments has a bit in the array of the kinds
  have hblock : firstFrag >>> h.logFrags / 8 < h.loggedLength := by
    have hinside := hm.inside
    have height := hh.eight
    rw [hh.bits] at hinside
    rw [hh.shiftRight, hh.kinds, if_neg (by omega)]
    have hlt := Nat.div_lt_of_lt_mul (show firstFrag < h.fragmentsPerBlock * h.blocksPerPage by rw [Nat.mul_comm]; omega)
    omega
  obtain ⟨hheader, hsame⟩ := setKind_bits hblock hkind
  have hdone := (Option.ite_none_left_eq_some.mp hmark).2
  obtain ⟨rfl, hrest⟩ := Prod.mk.inj (Option.some.inj hdone)
  obtain ⟨hcounts, -⟩ := Prod.mk.inj hrest
  refine ⟨⟨hm.header.trans hheader, hm.inside, fun k => (fragFree_congr hsame k).trans (hm.free_iff k)⟩, ?_⟩
  rw [partCounts, ← hcounts]

theorem MarkFrags_whole (hpos : 0 < nFrags) (hle : h.fragmentsPerBlock ≤ nFrags)
    (hmark : MarkFrags page h logged firstFrag nFrags alloc flag = some (page', h', flag')) :
    Marked page page' h firstFrag nFrags alloc ∧ h' = countBlocks h (nFrags >>> h.logFrags) alloc := by
  rw [MarkFrags, if_neg (by omega)] at hmark
  obtain ⟨page₁, hbits, hmark⟩ := Option.bind_eq_some_iff.mp hmark
  rw [if_neg (by omega), Option.ite_none_left_eq_some] at hmark
  obtain ⟨rfl, hrest⟩ := Prod.mk.inj (Option.some.inj hmark.2)
  exact ⟨markBits_marked hpos hbits, (Prod.mk.inj hrest).1.symm⟩

theorem Marked.agree (hm : Marked page page' h firstFrag nFrags alloc) {c b' : ℕ} (hfirst : b * h.fragmentsPerBlock ≤ firstFrag)
    (hlast : firstFrag + nFrags ≤ (b + c) * h.fragmentsPerBlock) (hout : ¬(b ≤ b' ∧ b' < b + c)) :
    AgreeOn (fragFree page h) (fragFree page' h) h.fragmentsPerBlock b' := by
  intro j hj
  rw [hm.free_iff, if_neg]
  rintro ⟨hle, hlt⟩
  rcases Nat.lt_or_ge b' b with hbefore | hafter
  · have hmul := Nat.mul_le_mul_right h.fragmentsPerBlock (show b' + 1 ≤ b from hbefore)
    rw [Nat.add_mul, Nat.one_mul] at hmul
    omega
  · have hmul := Nat.mul_le_mul_right h.fragmentsPerBlock (show b + c ≤ b' by omega)
    omega

section counts

variable {w : Bool}

theorem countAlloc_geometry : SameGeometry h (countAlloc h nFrags w) := by
  rw [countAlloc]
  split_ifs <;> rfl

theorem countFree_geometry : SameGeometry h (countFree h nFrags w) := by
  rw [countFree]
  split_ifs <;> rfl

theorem countBlocks_geometry : SameGeometry h (countBlocks h nFrags alloc) := by
  rw [countBlocks]
  split_ifs <;> rfl

variable (hvalid : h.blocksFreeValid = true)
include hvalid

theorem countAlloc_blocks : (countAlloc h nFrags w).blocksFree = h.blocksFree - if w = true then 1 else 0 := by
  rw [countAlloc, if_pos hvalid]
  cases w with
  | true => rfl
  | false => exact (sub_zero _).symm

theorem countAlloc_frags :
    (countAlloc h nFrags w).fragsFree = h.fragsFree + (if w = true then (h.fragmentsPerBlock : ℤ) else 0) - nFrags := by
  rw [countAlloc, if_pos hvalid]
  cases w with
  | true => exact (add_sub_assoc ..).symm
  | false => exact congrArg (· - (nFrags : ℤ)) (add_zero _).symm

theorem countFree_blocks : (countFree h nFrags w).blocksFree = h.blocksFree + if w = true then 1 else 0 := by
  rw [countFree, if_pos hvalid]
  cases w with
  | true => rfl
  | false => exact (add_zero _).symm

theorem countFree_frags :
    (countFree h nFrags w).fragsFree = h.fragsFree - (if w = true then (h.fragmentsPerBlock : ℤ) else 0) + nFrags := by
  rw [countFree, if_pos hvalid]
  cases w with
  | true => exact (sub_add ..).symm
  | false => exact congrArg (· + (nFrags : ℤ)) (sub_zero _).symm

end counts

section part

variable (hh : h.Formatted) (hpos : 0 < nFrags) (hlt : nFrags < h.fragmentsPerBlock) (hb : b < h.blocksPerPage)
  (hfirst : b * h.fragmentsPerBlock ≤ firstFrag) (hlast : firstFrag + nFrags ≤ b * h.fragmentsPerBlock + h.fragmentsPerBlock)
include hh hpos hlt hb hfirst hlast

omit hh hpos hlt in
theorem Marked.page_counts (hm : Marked page page' h firstFrag nFrags alloc) :
    pageBlocks page' h = pageBlocks page h + (wholeAt (fragFree page' h) h.fragmentsPerBlock b -
        wholeAt (fragFree page h) h.fragmentsPerBlock b) ∧
      pageFrags page' h = pageFrags page h + (partAt (fragFree page' h) h.fragmentsPerBlock b -
        partAt (fragFree page h) h.fragmentsPerBlock b) := by
  have hsame (b' : ℕ) (hne : b' ≠ b) : AgreeOn (fragFree page h) (fragFree page' h) h.fragmentsPerBlock b' :=
    hm.agree (c := 1) hfirst (by rwa [Nat.add_mul, Nat.one_mul]) (by omega)
  exact ⟨wholeBlocks_of_block hb hsame, partPlaces_of_block hb hsame⟩

theorem allocPart_balanced (hfree : Run (fragFree page h) firstFrag nFrags)
    (hflag : flag = if blockFree page h b then 1 else 0)
    (hmark : MarkFrags page h logged firstFrag nFrags true flag = some (page', h', flag')) : Balanced page h page' h' := by
  obtain ⟨hm, hcounts⟩ := MarkFrags_part hh hpos hlt hmark
  obtain ⟨hblocks, hfrags⟩ := hm.page_counts hb hfirst hlast
  have htaken : ¬Run (fragFree page' h) (b * h.fragmentsPerBlock) h.fragmentsPerBlock := by
    intro hrun
    have hplace := hrun.place hfirst (by omega)
    rw [hm.free_iff, if_pos (by omega)] at hplace
    cases hplace
  have hin : freeIn (fragFree page' h) h.fragmentsPerBlock b = freeIn (fragFree page h) h.fragmentsPerBlock b - nFrags := by
    refine freeIn_taken (s := firstFrag - b * h.fragmentsPerBlock) (by omega) (fun j hle hj => ?_) fun j hj => ?_
    · exact hfree.place (by omega) (by omega)
    · rw [hm.free_iff]
      by_cases hrange : firstFrag ≤ b * h.fragmentsPerBlock + j ∧ b * h.fragmentsPerBlock + j < firstFrag + nFrags
      · rw [if_pos hrange]
        exact iff_of_false (by decide) fun hkeep => absurd hkeep.2 (by omega)
      · rw [if_neg hrange]
        exact (and_iff_left (by omega)).symm
  rw [wholeAt_used htaken] at hblocks
  rw [partAt_used htaken, hin] at hfrags
  have hstate : blockState page' h firstFrag true flag = flag := if_pos rfl
  rw [partCounts, if_pos rfl, hstate] at hcounts
  refine ⟨hm.header, hcounts ▸ countAlloc_geometry, fun hvalid => ?_, fun hvalid => ?_⟩
  · rw [hcounts, countAlloc_blocks hvalid, hblocks, hflag]
    by_cases hwhole : blockFree page h b
    · rw [wholeAt_free hwhole, if_pos hwhole, if_pos (by decide)]
      ring
    · rw [wholeAt_used hwhole, if_neg hwhole, if_neg (by decide)]
      ring
  · rw [hcounts, countAlloc_frags hvalid, hfrags, hflag]
    by_cases hwhole : blockFree page h b
    · rw [partAt_free hwhole, freeIn_free hwhole, if_pos hwhole, if_pos (by decide)]
      ring
    · rw [partAt_used hwhole, if_neg hwhole, if_neg (by decide)]
      ring

omit hlt hb in
theorem blockState_free (hm : Marked page page' h firstFrag nFrags false) (hvalid : h.blocksFreeValid = true)
    (hflag : flag = -1 ∨ (flag = 0 ∨ flag = -2) ∧
      ∃ k, b * h.fragmentsPerBlock ≤ k ∧ k < b * h.fragmentsPerBlock + h.fragmentsPerBlock ∧
        ¬(firstFrag ≤ k ∧ k < firstFrag + nFrags) ∧ ¬fragFree page h k) :
    decide (blockState page' h firstFrag false flag ≠ 0) = true ↔ blockFree page' h b := by
  have hblock : firstFrag / h.fragmentsPerBlock = b :=
    Nat.div_eq_of_lt_le hfirst (by rw [Nat.succ_mul]; omega)
  rw [decide_eq_true_eq, blockState, if_neg (by decide)]
  rcases hflag with rfl | ⟨hflag, k, hle, hk, hout, hused⟩
  · rw [if_neg (by decide), if_pos ⟨hvalid, rfl⟩, ← hblock, ← IsWholeBlockFree_iff page' hh]
    cases IsWholeBlockFree h (BitsArray page' h) firstFrag <;> decide
  · have hnot : ¬blockFree page' h b := by
      intro hrun
      have hplace := hrun.place hle hk
      rw [hm.free_iff, if_neg hout] at hplace
      exact hused hplace
    rcases hflag with rfl | rfl
    · rw [if_neg (by decide), if_neg (by simp)]
      exact iff_of_false (by decide) hnot
    · rw [if_pos rfl]
      exact iff_of_false (by decide) hnot

theorem freePart_balanced (hused : ∀ k, firstFrag ≤ k → k < firstFrag + nFrags → ¬fragFree page h k)
    (hflag : flag = -1 ∨ (flag = 0 ∨ flag = -2) ∧
      ∃ k, b * h.fragmentsPerBlock ≤ k ∧ k < b * h.fragmentsPerBlock + h.fragmentsPerBlock ∧
        ¬(firstFrag ≤ k ∧ k < firstFrag + nFrags) ∧ ¬fragFree page h k)
    (hmark : MarkFrags page h logged firstFrag nFrags false flag = some (page', h', flag')) : Balanced page h page' h' := by
  obtain ⟨hm, hcounts⟩ := MarkFrags_part hh hpos hlt hmark
  obtain ⟨hblocks, hfrags⟩ := hm.page_counts hb hfirst hlast
  have hused' : ¬Run (fragFree page h) (b * h.fragmentsPerBlock) h.fragmentsPerBlock :=
    fun hrun => hused firstFrag (by omega) (by omega) (hrun.place hfirst (by omega))
  have hin : freeIn (fragFree page h) h.fragmentsPerBlock b = freeIn (fragFree page' h) h.fragmentsPerBlock b - nFrags := by
    refine freeIn_taken (s := firstFrag - b * h.fragmentsPerBlock) (by omega) (fun j hle hj => ?_) fun j hj => ?_
    · rw [hm.free_iff, if_pos (by omega)]
    · rw [hm.free_iff]
      by_cases hrange : firstFrag ≤ b * h.fragmentsPerBlock + j ∧ b * h.fragmentsPerBlock + j < firstFrag + nFrags
      · rw [if_pos hrange]
        exact iff_of_false (hused _ hrange.1 hrange.2) fun hkeep => absurd hkeep.2 (by omega)
      · rw [if_neg hrange]
        exact (and_iff_left (by omega)).symm
  rw [wholeAt_used hused'] at hblocks
  rw [partAt_used hused', hin] at hfrags
  rw [partCounts, if_neg (by decide)] at hcounts
  refine ⟨hm.header, hcounts ▸ countFree_geometry, fun hvalid => ?_, fun hvalid => ?_⟩
  · have hstate := blockState_free hh hpos hfirst hlast hm hvalid hflag
    rw [hcounts, countFree_blocks hvalid, hblocks]
    by_cases hwhole : blockFree page' h b
    · rw [wholeAt_free hwhole, if_pos (hstate.mpr hwhole)]
      ring
    · rw [wholeAt_used hwhole, if_neg (mt hstate.mp hwhole)]
      ring
  · have hstate := blockState_free hh hpos hfirst hlast hm hvalid hflag
    rw [hcounts, countFree_frags hvalid, hfrags]
    by_cases hwhole : blockFree page' h b
    · rw [partAt_free hwhole, freeIn_free hwhole, if_pos (hstate.mpr hwhole)]
      ring
    · rw [partAt_used hwhole, if_neg (mt hstate.mp hwhole)]
      ring

end part

theorem countBlocks_blocks {c : ℕ} (hvalid : h.blocksFreeValid = true) :
    (countBlocks h c alloc).blocksFree = if alloc then h.blocksFree - c else h.blocksFree + c := by
  rw [countBlocks, if_pos hvalid]

theorem countBlocks_frags {c : ℕ} : (countBlocks h c alloc).fragsFree = h.fragsFree := by
  rw [countBlocks]
  split_ifs <;> rfl

theorem Marked.free_of_freed (hm : Marked page page' h firstFrag nFrags false) (hfirst : firstFrag ≤ b * h.fragmentsPerBlock)
    (hlast : b * h.fragmentsPerBlock + h.fragmentsPerBlock ≤ firstFrag + nFrags) : blockFree page' h b :=
  Run.of_places fun k hle hk => (hm.free_iff k).mpr (by rw [if_pos (by omega)])

theorem Marked.full_of_taken (hm : Marked page page' h firstFrag nFrags true) (hfirst : firstFrag ≤ b * h.fragmentsPerBlock)
    (hlast : b * h.fragmentsPerBlock + h.fragmentsPerBlock ≤ firstFrag + nFrags) : blockFull page' h b := by
  intro j hj
  rw [hm.free_iff, if_pos (by omega)]
  decide

theorem MarkFrags_blocks (hh : h.Formatted) {c : ℕ} (hc : 0 < c)
    (hbefore : ∀ b', b ≤ b' → b' < b + c → if alloc then blockFree page h b' else blockFull page h b')
    (hmark : MarkFrags page h logged (b * h.fragmentsPerBlock) (c * h.fragmentsPerBlock) alloc flag = some (page', h', flag')) :
    Balanced page h page' h' ∧ Marked page page' h (b * h.fragmentsPerBlock) (c * h.fragmentsPerBlock) alloc := by
  have hle := Nat.le_mul_of_pos_left h.fragmentsPerBlock hc
  obtain ⟨hm, hcounts⟩ := MarkFrags_whole (Nat.mul_pos hc hh.pos) hle hmark
  have hcount : (c * h.fragmentsPerBlock) >>> h.logFrags = c := by rw [hh.shiftRight, Nat.mul_div_cancel _ hh.pos]
  rw [hcount] at hcounts
  have hrange : (b + c) * h.fragmentsPerBlock = b * h.fragmentsPerBlock + c * h.fragmentsPerBlock := Nat.add_mul ..
  have hend : b + c ≤ h.blocksPerPage := by
    have hinside := hm.inside
    rw [hh.bits, ← hrange] at hinside
    exact Nat.le_of_mul_le_mul_right hinside hh.pos
  have hsame (b' : ℕ) (hout : ¬(b ≤ b' ∧ b' < b + c)) := hm.agree le_rfl hrange.ge hout
  have hplaces (b' : ℕ) (hle : b ≤ b') (hlt : b' < b + c) : b * h.fragmentsPerBlock ≤ b' * h.fragmentsPerBlock ∧
      b' * h.fragmentsPerBlock + h.fragmentsPerBlock ≤ b * h.fragmentsPerBlock + c * h.fragmentsPerBlock := by
    have hstart := Nat.mul_le_mul_right h.fragmentsPerBlock hle
    have hstop := Nat.mul_le_mul_right h.fragmentsPerBlock (show b' + 1 ≤ b + c from hlt)
    rw [hrange, Nat.add_mul, Nat.one_mul] at hstop
    exact ⟨hstart, hstop⟩
  have hpage : pageBlocks page' h = (if alloc then pageBlocks page h - c else pageBlocks page h + c) ∧
      pageFrags page' h = pageFrags page h := by
    cases alloc with
    | true =>
      have hfilled := counts_of_freed (n := h.blocksPerPage) hh.pos hend
        (fun b' hout j hj => (hsame b' hout j hj).symm)
        (fun b' hle hlt => hm.full_of_taken (hplaces b' hle hlt).1 (hplaces b' hle hlt).2)
        (fun b' hle hlt => hbefore b' hle hlt)
      exact ⟨eq_sub_of_add_eq hfilled.1.symm, hfilled.2.symm⟩
    | false =>
      exact counts_of_freed (n := h.blocksPerPage) hh.pos hend hsame
        (fun b' hle hlt => hbefore b' hle hlt)
        (fun b' hle hlt => hm.free_of_freed (hplaces b' hle hlt).1 (hplaces b' hle hlt).2)
  refine ⟨⟨hm.header, hcounts ▸ countBlocks_geometry, fun hvalid => ?_, fun _ => ?_⟩, hm⟩
  · rw [hcounts, countBlocks_blocks hvalid, hpage.1]
    cases alloc with
    | true => exact sub_sub_sub_cancel_right ..
    | false => exact add_sub_add_right_eq_sub ..
  · rw [hcounts, countBlocks_frags, hpage.2]

end dce.episode.bitmap
