import Mathlib.Logic.Function.Basic
import Dce.Epi.BlockAlloc
import Dce.Epi.BlockState

open lib

namespace dce.episode.bitmap

def startMask : List ℕ := [0xff, 0xfe, 0xfc, 0xf8, 0xf0, 0xe0, 0xc0, 0x80]

def endMask : List ℕ := [0x01, 0x03, 0x07, 0x0f, 0x1f, 0x3f, 0x7f, 0xff]

/-- `SET_BITMAP_BYTE`; nothing when the byte had the value, which an assertion excludes. -/
def SET_BITMAP_BYTE (which i : ℕ) (value : BitVec 8) (page : bitmapPage) : Option bitmapPage :=
  if page.logged (which + i) = value then none
  else some { page with logged := Function.update page.logged (which + i) value }

def SET_BITS_BYTE (h : allocationData) (i : ℕ) (value : BitVec 8) (page : bitmapPage) : Option bitmapPage :=
  SET_BITMAP_BYTE h.loggedLength i value page

def SET_LOGGED_BYTE (i : ℕ) (value : BitVec 8) (page : bitmapPage) : Option bitmapPage := SET_BITMAP_BYTE 0 i value page

def maskByte (alloc : Bool) (mask : ℕ) (value : BitVec 8) : BitVec 8 :=
  if alloc then value ||| BitVec.ofNat 8 mask else value &&& ~~~BitVec.ofNat 8 mask

/-- The first part of `MarkFrags`: the bits of the fragments, the bytes in the middle first. -/
def markBits (h : allocationData) (firstFrag nFrags : ℕ) (alloc : Bool) (page : bitmapPage) : Option bitmapPage := do
  let firstBit := firstFrag &&& 0x7
  let firstByte := firstFrag >>> 3
  let lastFrag := firstFrag + nFrags - 1
  let lastBit := lastFrag &&& 0x7
  let lastByte := lastFrag >>> 3
  if ¬(firstByte ≤ lastByte ∧ lastByte < h.bitsLength) then none
  else
    let page ← (List.range (lastByte - (firstByte + 1))).foldlM
      (fun page k => SET_BITS_BYTE h (firstByte + 1 + k) (if alloc then 0xff else 0) page) page
    let mask := startMask.getD firstBit 0
    let mask := if firstByte = lastByte then mask &&& endMask.getD lastBit 0 else mask
    let page ← SET_BITS_BYTE h firstByte (maskByte alloc mask (BitsArray page h firstByte)) page
    if firstByte ≠ lastByte then
      SET_BITS_BYTE h lastByte (maskByte alloc (endMask.getD lastBit 0) (BitsArray page h lastByte)) page
    else some page

/-- The bit of a block in the array `logged`. -/
def isLogged (page : bitmapPage) (block : ℕ) : Bool :=
  decide ((page.logged (block >>> 3)).toNat &&& 1 <<< (block &&& 7) ≠ 0)

/-- Sets the bit of a block in the array `logged` where it has the other value. -/
def setLogged (logged : ℤ) (block : ℕ) (page : bitmapPage) : Option bitmapPage :=
  if logged ≠ (if isLogged page block then 1 else 0) then
    SET_LOGGED_BYTE (block >>> 3) (maskByte (decide (logged ≠ 0)) (1 <<< (block &&& 7)) (page.logged (block >>> 3))) page
  else some page

def countAlloc (h : allocationData) (nFrags : ℕ) (wholeBlockFree : Bool) : allocationData :=
  if h.blocksFreeValid then
    if wholeBlockFree then
      { h with blocksFree := h.blocksFree - 1, fragsFree := h.fragsFree + ((h.fragmentsPerBlock : ℤ) - nFrags) }
    else { h with fragsFree := h.fragsFree - nFrags }
  else h

def countFree (h : allocationData) (nFrags : ℕ) (wholeBlockFree : Bool) : allocationData :=
  if h.blocksFreeValid then
    if wholeBlockFree then
      { h with blocksFree := h.blocksFree + 1, fragsFree := h.fragsFree - ((h.fragmentsPerBlock : ℤ) - nFrags) }
    else { h with fragsFree := h.fragsFree + nFrags }
  else h

def countBlocks (h : allocationData) (nBlocks : ℕ) (alloc : Bool) : allocationData :=
  if h.blocksFreeValid then
    { h with blocksFree := if alloc then h.blocksFree - nBlocks else h.blocksFree + nBlocks }
  else h

/-- The kind of a block that becomes used in part is set; the state of the block is what the caller knows of it. -/
def setKind (logged : ℤ) (block : ℕ) (alloc : Bool) (wholeBlockFree : ℤ) (page : bitmapPage) : Option bitmapPage :=
  if alloc = true ∧ wholeBlockFree ≠ 0 ∨ alloc = false ∧ wholeBlockFree = -2 then setLogged logged block page else some page

/-- What is known about the block of the fragments after the change: `-2` is a block that becomes free in part, and `-1`
is not known, for which the counts need the answer. -/
def blockState (page : bitmapPage) (h : allocationData) (firstFrag : ℕ) (alloc : Bool) (wholeBlockFree : ℤ) : ℤ :=
  if alloc then wholeBlockFree
  else if wholeBlockFree = -2 then 0
  else if h.blocksFreeValid ∧ wholeBlockFree = -1 then (if IsWholeBlockFree h (BitsArray page h) firstFrag then 1 else 0)
  else wholeBlockFree

/-- The last part of `MarkFrags` when the fragments are not a whole block. -/
def markPart (page : bitmapPage) (h : allocationData) (logged : ℤ) (firstFrag nFrags : ℕ) (alloc : Bool)
    (wholeBlockFree : ℤ) : Option (bitmapPage × allocationData × ℤ) := do
  if ¬(h.fragmentsPerBlock > 1 ∧ (logged = 0 ∨ logged = 1) ∧ (alloc = false ∨ wholeBlockFree ≠ -1)) then none
  else
    let page ← setKind logged (firstFrag >>> h.logFrags) alloc wholeBlockFree page
    let wholeBlockFree := blockState page h firstFrag alloc wholeBlockFree
    let h := if alloc then countAlloc h nFrags (decide (wholeBlockFree ≠ 0))
      else countFree h nFrags (decide (wholeBlockFree ≠ 0))
    if logged ≠ (if isLogged page (firstFrag >>> h.logFrags) then 1 else 0) then none
    else some (page, h, wholeBlockFree)

/-- Sets the bits of a range of fragments of a page. The last argument is the state of the surrounding block as far as the
caller knows it, and the result has it as well. Nothing when an assertion stops the program. -/
def MarkFrags (page : bitmapPage) (h : allocationData) (logged : ℤ) (firstFrag nFrags : ℕ) (alloc : Bool) (wholeBlockFree : ℤ) :
    Option (bitmapPage × allocationData × ℤ) := do
  if nFrags = 0 then some (page, h, wholeBlockFree)
  else
    let page ← markBits h firstFrag nFrags alloc page
    if nFrags < h.fragmentsPerBlock then markPart page h logged firstFrag nFrags alloc wholeBlockFree
    else if h.blocksFreeValid ∧ nFrags &&& (h.fragmentsPerBlock - 1) ≠ 0 then none
    else some (page, countBlocks h (nFrags >>> h.logFrags) alloc, 1)

def MarkBlock (page : bitmapPage) (h : allocationData) (eb : ℕ) (alloc : Bool) : Option (bitmapPage × allocationData) :=
  if ¬(page.baseOffset ≤ eb ∧ eb < page.baseOffset + h.blocksPerPage) then none
  else
    (MarkFrags page h (-1) ((eb - page.baseOffset) * page.fragmentsPerBlock) page.fragmentsPerBlock alloc (-1)).map
      fun result => (result.1, result.2.1)

variable {page page' : bitmapPage} {h : allocationData} {firstFrag nFrags : ℕ} {alloc : Bool}

/-- Two pages that differ only in what lies behind their headers. -/
def SameHeader (page page' : bitmapPage) : Prop := page' = { page with logged := page'.logged }

theorem SameHeader.trans {page₁ page₂ page₃ : bitmapPage} (h₁ : SameHeader page₁ page₂) (h₂ : SameHeader page₂ page₃) :
    SameHeader page₁ page₃ := by
  rw [SameHeader] at h₁ h₂ ⊢
  rw [h₂, h₁]

/-- What the marking of a range of fragments does to a page. -/
structure Marked (page page' : bitmapPage) (h : allocationData) (firstFrag nFrags : ℕ) (alloc : Bool) : Prop where
  header : SameHeader page page'
  inside : firstFrag + nFrags ≤ h.bitsLength * 8
  free_iff : ∀ k, fragFree page' h k ↔ if firstFrag ≤ k ∧ k < firstFrag + nFrags then alloc = false else fragFree page h k

/-- A write of bytes of the bits array. -/
structure Writes (page page' : bitmapPage) (h : allocationData) (bytes : ℕ → BitVec 8) : Prop where
  header : SameHeader page page'
  bits : ∀ j, BitsArray page' h j = bytes j

theorem SET_BITS_BYTE_writes {i : ℕ} {value : BitVec 8} (hset : SET_BITS_BYTE h i value page = some page') :
    Writes page page' h (Function.update (BitsArray page h) i value) := by
  rw [SET_BITS_BYTE, SET_BITMAP_BYTE, Option.ite_none_left_eq_some] at hset
  have hpage := (Option.some.inj hset.2).symm
  have hlogged : page'.logged = Function.update page.logged (h.loggedLength + i) value := by rw [hpage]
  refine ⟨hpage.trans (by rw [hlogged]), fun j => ?_⟩
  rw [BitsArray, hlogged]
  by_cases hj : j = i
  · rw [hj, Function.update_self, Function.update_self]
  · rw [Function.update_of_ne (by omega), Function.update_of_ne hj, BitsArray]

theorem Writes.trans {page₁ page₂ page₃ : bitmapPage} {bytes bytes' : ℕ → BitVec 8} (h₁ : Writes page₁ page₂ h bytes)
    (h₂ : Writes page₂ page₃ h bytes') : Writes page₁ page₃ h bytes' :=
  ⟨h₁.header.trans h₂.header, h₂.bits⟩

theorem middle_writes {first count : ℕ} {value : BitVec 8}
    (hfold : (List.range count).foldlM (fun page k => SET_BITS_BYTE h (first + k) value page) page = some page') :
    Writes page page' h fun j => if first ≤ j ∧ j < first + count then value else BitsArray page h j := by
  induction count generalizing page' with
  | zero =>
    obtain rfl := Option.some.inj hfold
    exact ⟨rfl, fun j => by rw [if_neg (by omega)]⟩
  | succ count ih =>
    rw [List.range_succ, List.foldlM_append] at hfold
    obtain ⟨page₁, hbefore, hlast⟩ := Option.bind_eq_some_iff.mp hfold
    have hw := ih hbefore
    obtain ⟨page₂, hset, hdone⟩ := Option.bind_eq_some_iff.mp hlast
    obtain rfl := Option.some.inj hdone
    have hset := SET_BITS_BYTE_writes hset
    refine hw.trans ⟨hset.header, fun j => ?_⟩
    rw [hset.bits]
    by_cases hj : j = first + count
    · rw [hj, Function.update_self, if_pos (by omega)]
    · rw [Function.update_of_ne hj, hw.bits]
      exact if_congr (by omega) rfl rfl

theorem startMask_bit : ∀ b < 8, ∀ j < 8, (startMask.getD b 0).testBit j = decide (b ≤ j) := by decide

theorem endMask_bit : ∀ b < 8, ∀ j < 8, (endMask.getD b 0).testBit j = decide (j ≤ b) := by decide

theorem clear_maskByte {mask : ℕ} {value : BitVec 8} {j : ℕ} (hj : j < 8) :
    Clear (maskByte alloc mask value).toNat j ↔ if mask.testBit j = true then alloc = false else Clear value.toNat j := by
  have hmask : (BitVec.ofNat 8 mask).getLsbD j = mask.testBit j := by
    rw [BitVec.getLsbD_ofNat, decide_eq_true hj, Bool.true_and]
  rw [Clear, Clear, ← BitVec.getLsbD, ← BitVec.getLsbD, maskByte]
  cases alloc with
  | true =>
    rw [if_pos rfl, BitVec.getLsbD_or, hmask]
    cases mask.testBit j <;> simp
  | false =>
    rw [if_neg (by decide), BitVec.getLsbD_and, BitVec.getLsbD_not, hmask, decide_eq_true hj]
    cases mask.testBit j <;> simp

theorem clear_middle {j : ℕ} (hj : j < 8) : Clear (if alloc then 0xff else 0 : BitVec 8).toNat j ↔ alloc = false := by
  cases alloc with
  | true =>
    have hall : ∀ j < 8, ¬Clear (0xff : BitVec 8).toNat j := by decide
    simpa using hall j hj
  | false => simp [Clear]

theorem markBits_writes (hmark : markBits h firstFrag nFrags alloc page = some page') :
    (firstFrag + nFrags - 1) / 8 < h.bitsLength ∧ firstFrag / 8 ≤ (firstFrag + nFrags - 1) / 8 ∧
      ∃ bytes, Writes page page' h bytes ∧ ∀ i, ∀ j < 8, Clear (bytes i).toNat j ↔
        if firstFrag ≤ i * 8 + j ∧ i * 8 + j ≤ firstFrag + nFrags - 1 then alloc = false
        else Clear (BitsArray page h i).toNat j := by
  have hand (k : ℕ) : k &&& 7 = k % 8 := Nat.and_two_pow_sub_one_eq_mod k 3
  simp only [markBits, hand, Nat.shiftRight_eq_div_pow, Nat.reducePow] at hmark
  generalize hlast : firstFrag + nFrags - 1 = lastFrag at hmark ⊢
  rw [Option.ite_none_left_eq_some, not_not] at hmark
  obtain ⟨hrange, hwrites⟩ := hmark
  obtain ⟨page₁, hmiddle, hwrites⟩ := Option.bind_eq_some_iff.mp hwrites
  obtain ⟨page₂, hfirst, hwrites⟩ := Option.bind_eq_some_iff.mp hwrites
  have hw₁ := middle_writes hmiddle
  have hw₂ := hw₁.trans (SET_BITS_BYTE_writes hfirst)
  refine ⟨hrange.2, hrange.1, ?_⟩
  -- the bytes in the middle are not those of the first and the last bit
  have hkept₁ : BitsArray page₁ h (firstFrag / 8) = BitsArray page h (firstFrag / 8) := by
    rw [hw₁.bits, if_neg (by omega)]
  have hkept₂ : BitsArray page₁ h (lastFrag / 8) = BitsArray page h (lastFrag / 8) := by
    rw [hw₁.bits, if_neg (by omega)]
  by_cases hone : firstFrag / 8 = lastFrag / 8
  · rw [if_neg (not_not.mpr hone)] at hwrites
    obtain rfl := Option.some.inj hwrites
    refine ⟨_, hw₂, fun i j hj => ?_⟩
    by_cases hi : i = firstFrag / 8
    · rw [hi, Function.update_self, if_pos hone, clear_maskByte hj, hkept₁, Nat.testBit_and,
        startMask_bit _ (by omega) j hj, endMask_bit _ (by omega) j hj, ← Bool.decide_and]
      exact Iff.of_eq (if_congr (decide_eq_true_iff.trans (by omega)) rfl rfl)
    · rw [Function.update_of_ne hi, hw₁.bits, if_neg (by omega), if_neg (by omega)]
  · rw [if_pos hone] at hwrites
    have hw₃ := hw₂.trans (SET_BITS_BYTE_writes hwrites)
    refine ⟨_, hw₃, fun i j hj => ?_⟩
    by_cases hi : i = lastFrag / 8
    · rw [hi, Function.update_self, clear_maskByte hj, hw₂.bits, Function.update_of_ne (Ne.symm hone), hkept₂,
        endMask_bit _ (by omega) j hj]
      exact Iff.of_eq (if_congr (decide_eq_true_iff.trans (by omega)) rfl rfl)
    · rw [Function.update_of_ne hi, hw₂.bits]
      by_cases hi' : i = firstFrag / 8
      · rw [hi', Function.update_self, if_neg hone, clear_maskByte hj, hkept₁,
          startMask_bit _ (by omega) j hj]
        exact Iff.of_eq (if_congr (decide_eq_true_iff.trans (by omega)) rfl rfl)
      · rw [Function.update_of_ne hi', hw₁.bits]
        by_cases hin : firstFrag / 8 + 1 ≤ i ∧ i < firstFrag / 8 + 1 + (lastFrag / 8 - (firstFrag / 8 + 1))
        · have hinside : firstFrag ≤ i * 8 + j ∧ i * 8 + j ≤ lastFrag := by omega
          rw [if_pos hin, if_pos hinside]
          exact clear_middle hj
        · rw [if_neg hin, if_neg (by omega)]

theorem markBits_marked (hpos : 0 < nFrags) (hmark : markBits h firstFrag nFrags alloc page = some page') :
    Marked page page' h firstFrag nFrags alloc := by
  obtain ⟨hlt, hle, bytes, hw, hclear⟩ := markBits_writes hmark
  refine ⟨hw.header, by omega, fun k => ?_⟩
  have hplace : k / 8 * 8 + k % 8 = k := by omega
  rw [fragFree, hw.bits, hclear (k / 8) (k % 8) (by omega), hplace]
  exact Iff.of_eq (if_congr (by omega) rfl rfl)

end dce.episode.bitmap
