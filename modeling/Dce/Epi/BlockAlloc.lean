import Mathlib.Data.BitVec

namespace dce.episode.bitmap

def BITMAP_MAGIC : BitVec 32 := 0x5b7674d7

def EPIB_MAX_FRAGMENTS_PER_BLOCK : ℕ := 64

/-- An unallocated block: all bits of a `daddr_t`, which is signed. -/
def EPIX_ANODE_BLOCKEMPTY : ℤ := -1

def NO_FRAG : ℤ := -1

/-- `struct async_device`, as far as the bitmap needs it. -/
structure async_device where
  logBlkSize : ℕ
  logFragSize : ℕ
  blkSize : ℕ
  blkSize_eq : blkSize = 1 <<< logBlkSize
  frag_le : logFragSize ≤ logBlkSize

/-- `struct epia_info`, as far as `InitHandle` looks at it. -/
structure epia_info where
  statusSize : ℕ
  backingIndex : ℕ
  length : ℕ
  deriving DecidableEq

/-- `struct bitmapPage`. The bytes from the array `logged` on are numbered without an end, as the code addresses them. -/
structure bitmapPage where
  initialStamp : BitVec 32
  magic : BitVec 32
  baseOffset : ℕ
  blocksPerPage : ℕ
  bitmapLength : ℕ
  fragmentsPerBlock : ℕ
  logged : ℕ → BitVec 8
  finalStamp : BitVec 32

/-- `struct allocationData`, without the container, the lock and the blocks that wait for a commit. -/
structure allocationData where
  base : ℕ
  length : ℕ
  loggedLength : ℕ
  fragmentsPerBlock : ℕ
  logFrags : ℕ
  blocksPerPage : ℕ
  bitsLength : ℕ
  fragSearchArray : List ℕ
  fragCrossArray : List ℕ
  blocksFree : ℤ
  fragsFree : ℤ
  blocksFreeValid : Bool

structure allocationHint where
  start : ℕ
  deriving DecidableEq

def BitsArray (page : bitmapPage) (h : allocationData) (i : ℕ) : BitVec 8 := page.logged (h.loggedLength + i)

/-- The first fragment of the block of a fragment; taking away the low bits is clearing them. -/
def BaseFrag (h : allocationData) (firstFrag : ℕ) : ℕ := firstFrag - (firstFrag &&& (h.fragmentsPerBlock - 1))

/-- Where in a byte a group of `size` fragments that stays in its block is free; the first such place. -/
def groupPos (byte maxSize size : ℕ) : Option ℕ :=
  (List.range (8 / maxSize)).findSome? fun blk =>
    ((List.range (maxSize + 1 - size)).map (blk * maxSize + ·)).find? fun pos =>
      decide (byte &&& ((1 <<< size) - 1) <<< pos = 0)

/-- The loop of `InitHandle` over the sizes, which ends at the first one that does not fit. -/
def fragWord (byte maxSize : ℕ) : ℕ → ℕ → ℕ → ℕ
  | 0, _, word => word
  | left + 1, size, word =>
    match groupPos byte maxSize size with
    | some pos => fragWord byte maxSize left (size + 1) (word ||| (pos ||| 0x8) <<< ((size - 1) * 4))
    | none => word

/-- `fragSearchArray` of blocks with up to 8 fragments, or with more. -/
def fragSearchTable (maxSize : ℕ) : List ℕ := (List.range 256).map fun byte => fragWord byte maxSize maxSize 1 0

/-- The loop of `InitHandle` over the edges of a byte. -/
def crossByte (byte : ℕ) : ℕ → ℕ → ℕ → ℕ → ℕ → ℕ
  | 0, _, _, lofree, hifree => hifree <<< 4 ||| lofree
  | left + 1, lomask, himask, lofree, hifree =>
    crossByte byte left (lomask <<< 1 ||| 1) (himask >>> 1) (if byte &&& lomask = 0 then lofree + 1 else lofree)
      (if byte &&& himask = 0 then hifree + 1 else hifree)

def fragCrossTable : List ℕ := (List.range 256).map fun byte => crossByte byte 8 1 (0xff <<< 7) 0 0

def POWER_OF_TWO (x : ℕ) : Prop := x &&& (x - 1) = 0

instance (x : ℕ) : Decidable (POWER_OF_TWO x) := inferInstanceAs (Decidable (_ = _))

/-- The fields that `InitHandle` fills in. -/
def newHandle (device : async_device) (firstPage : bitmapPage) : allocationData where
  base := firstPage.baseOffset
  length := firstPage.bitmapLength
  loggedLength := if firstPage.fragmentsPerBlock = 1 then 0 else firstPage.blocksPerPage / 8
  fragmentsPerBlock := firstPage.fragmentsPerBlock
  logFrags := device.logBlkSize - device.logFragSize
  blocksPerPage := firstPage.blocksPerPage
  bitsLength := firstPage.blocksPerPage / 8 * firstPage.fragmentsPerBlock
  fragSearchArray := fragSearchTable (min firstPage.fragmentsPerBlock 8)
  fragCrossArray := if firstPage.fragmentsPerBlock > 8 then fragCrossTable else []
  blocksFree := 0
  fragsFree := 0
  blocksFreeValid := false

/-- The allocation handle of a bitmap container whose first page is given; nothing is `EPI_E_NOTABITMAP`. -/
def InitHandle (device : async_device) (info : Option epia_info) (firstPage : bitmapPage) : Option allocationData := do
  let info ← info
  if info.statusSize ≠ 0 ∨ info.backingIndex ≠ 0 then none
  else if ¬info.length < 4294967296 then none
  else if info.length &&& (device.blkSize - 1) ≠ 0 then none
  else if (info.length >>> device.logBlkSize) * firstPage.blocksPerPage % 4294967296 < firstPage.bitmapLength then none
  else if firstPage.fragmentsPerBlock ≠ device.blkSize >>> device.logFragSize then none
  else if ¬(1 ≤ firstPage.fragmentsPerBlock ∧ firstPage.fragmentsPerBlock ≤ EPIB_MAX_FRAGMENTS_PER_BLOCK) then none
  else if ¬POWER_OF_TWO firstPage.fragmentsPerBlock then none
  else if firstPage.blocksPerPage &&& 7 ≠ 0 then none
  else some (newHandle device firstPage)

/-- The length in a page is enforced only on the first and the last page. -/
def BITMAP_PAGE_LENGTH_OK (page : bitmapPage) (h : allocationData) : Prop :=
  page.baseOffset = h.base ∨ page.baseOffset + page.blocksPerPage ≥ h.base + h.length → page.bitmapLength = h.length

def BITMAP_PAGE_MAGIC_OK (page : bitmapPage) : Prop := page.initialStamp = page.finalStamp ∧ page.magic = BITMAP_MAGIC

def BITMAP_PAGE_OK (page : bitmapPage) (h : allocationData) : Prop :=
  BITMAP_PAGE_MAGIC_OK page ∧
    (BitVec.ofNat 32 page.baseOffset - BitVec.ofNat 32 h.base).toNat % h.blocksPerPage = 0 ∧
    page.blocksPerPage ≤ h.blocksPerPage ∧ page.fragmentsPerBlock = h.fragmentsPerBlock ∧ BITMAP_PAGE_LENGTH_OK page h

def IsWholeBlockFree (h : allocationData) (bits : ℕ → BitVec 8) (firstFrag : ℕ) : Bool :=
  let base := BaseFrag h firstFrag
  let byte := base >>> 3
  if h.fragmentsPerBlock ≤ 8 then
    let b := (bits byte).toNat
    let firstBit := base &&& 7
    let blockMask := ((1 <<< h.fragmentsPerBlock) - 1) <<< firstBit % 256
    decide (b &&& blockMask = 0)
  else
    let bytesPerBlock := h.fragmentsPerBlock / 8
    (List.range bytesPerBlock).all fun i => decide ((bits (byte + i)).toNat = 0)

def fragField (h : allocationData) (shift bits : ℕ) : ℕ := h.fragSearchArray.getD bits 0 >>> shift &&& 0xf

/-- The loop of `FindBlock` over the bytes when a byte has several blocks. -/
def findBlockInBytes (page : bitmapPage) (h : allocationData) (start : ℕ) : Option ℕ :=
  let shift := (page.fragmentsPerBlock - 1) * 4
  let firstByte := if start ≠ 0 then start >>> (3 - h.logFrags) else 0
  let firstBit := (start &&& ((1 <<< (3 - h.logFrags)) - 1)) <<< h.logFrags
  let skipBits := if start ≠ 0 then (1 <<< firstBit) - 1 else 0
  ((List.range (h.bitsLength - firstByte)).map (firstByte + ·)).findSome? fun i =>
    let bits := (BitsArray page h i).toNat
    let bits := if i = firstByte then bits ||| skipBits else bits
    let found := fragField h shift bits
    if found ≠ 0 then some (i * 8 + (found &&& 7)) else none

/-- The loop of `FindBlock` over the blocks when a block has one byte or more. -/
def findBlockOfBytes (page : bitmapPage) (h : allocationData) (start : ℕ) : Option ℕ :=
  let bytesPerBlock := h.fragmentsPerBlock >>> 3
  let start := start * bytesPerBlock
  let count := (h.bitsLength - start + bytesPerBlock - 1) / bytesPerBlock
  ((List.range count).map (start + · * bytesPerBlock)).findSome? fun i =>
    if (List.range bytesPerBlock).all fun j => decide ((BitsArray page h (i + j)).toNat = 0) then some (i * 8) else none

/-- Locates an available block of a page from the hint on; nothing when the assertion about the hint stops the program. -/
def FindBlock (page : bitmapPage) (h : allocationData) (hint : Option allocationHint) : Option ℤ :=
  let start := (hint.map allocationHint.start).getD 0
  if hint.isSome ∧ ¬start < h.blocksPerPage then none
  else
    let bit := if h.fragmentsPerBlock < 8 then findBlockInBytes page h start else findBlockOfBytes page h start
    match bit with
    | none => some EPIX_ANODE_BLOCKEMPTY
    | some bit => some (page.baseOffset + (bit >>> h.logFrags : ℕ))

/-- Whether the fragments of a block are logged, and `-1` where no block has a part. -/
def IsLogged (page : bitmapPage) (h : allocationData) (firstFrag : ℕ) : ℤ :=
  let block := firstFrag >>> h.logFrags
  if h.logFrags = 0 then -1
  else if (page.logged (block >>> 3)).toNat &&& 1 <<< (block &&& 7) ≠ 0 then 1 else 0

/-- The loop of `FindFrags` when no group leaves its byte. A result is a fragment and the state of its block; nothing means
that the loop did not end in the steps that it was given. -/
def findInByte (page : bitmapPage) (h : allocationData) (logged : ℤ) (nFrags : ℕ) : ℕ → ℕ → ℕ → Option (ℤ × ℤ)
  | 0, _, _ => none
  | steps + 1, i, bits =>
    if i < h.bitsLength then
      let found := fragField h ((nFrags - 1) * 4) bits
      if found ≠ 0 then
        let firstFrag := i * 8 + (found &&& 7)
        let empty := IsWholeBlockFree h (BitsArray page h) firstFrag
        if !empty ∧ IsLogged page h firstFrag ≠ logged then
          -- mask out all of the current block, and go around again
          findInByte page h logged nFrags steps i (bits ||| ((1 <<< h.fragmentsPerBlock) - 1) <<< BaseFrag h (found &&& 7))
        else some (firstFrag, if empty then 1 else 0)
      else findInByte page h logged nFrags steps (i + 1) (BitsArray page h (i + 1)).toNat
    else some (NO_FRAG, -1)

/-- The group that a byte completes, or has within it. -/
def groupAt (h : allocationData) (nFrags i bits trailingEdge : ℕ) : Option ℕ :=
  if nFrags ≤ trailingEdge + (h.fragCrossArray.getD bits 0 &&& 0xf) then some (i * 8 - trailingEdge)
  else if nFrags ≤ 8 then
    let found := fragField h ((nFrags - 1) * 4) bits
    if found ≠ 0 then some (i * 8 + (found &&& 7)) else none
  else none

/-- The fragments that are free at the end of a byte, and in the bytes before it. -/
def trailingAfter (h : allocationData) (bits trailingEdge : ℕ) : ℕ :=
  if bits = 0 then trailingEdge + 8 else h.fragCrossArray.getD bits 0 >>> 4 &&& 0xf

/-- The loop of `FindFrags` when a block has several bytes; nothing also when the assertion about `trailingEdge` fails. -/
def findAcross (page : bitmapPage) (h : allocationData) (logged : ℤ) (nFrags : ℕ) : ℕ → ℕ → ℕ → ℕ → Bool → Option (ℤ × ℤ)
  | 0, _, _, _, _ => none
  | steps + 1, i, bits, trailingEdge, empty =>
    if i < h.bitsLength then
      let blockMask := (h.fragmentsPerBlock >>> 3) - 1
      let nextBlock (i : ℕ) := findAcross page h logged nFrags steps (i + 1) (BitsArray page h (i + 1)).toNat 0
        (decide ((BitsArray page h (i + 1)).toNat = 0))
      if nFrags ≤ trailingEdge + (h.fragCrossArray.getD bits 0 &&& 0xf) ∧ i * 8 < trailingEdge then none
      else
        match groupAt h nFrags i bits trailingEdge with
        | some firstFrag =>
          let empty := empty && IsWholeBlockFree h (BitsArray page h) firstFrag
          -- skip the rest of this block when it is of the other kind
          if !empty ∧ IsLogged page h firstFrag ≠ logged then nextBlock (i ||| blockMask)
          else some (firstFrag, if empty then 1 else 0)
        | none =>
          if i &&& blockMask = blockMask then nextBlock i
          else findAcross page h logged nFrags steps (i + 1) (BitsArray page h (i + 1)).toNat
            (trailingAfter h bits trailingEdge) (empty && decide ((BitsArray page h (i + 1)).toNat = 0))
    else some (NO_FRAG, -1)

/-- Locates a group of free fragments within a block of a page, from the hint on; with it, whether the block is free as a
whole. Nothing when an assertion stops the program. -/
def FindFrags (page : bitmapPage) (h : allocationData) (logged : ℤ) (nFrags : ℕ) (hint : Option allocationHint) :
    Option (ℤ × ℤ) :=
  let start := (hint.map allocationHint.start).getD 0
  if ¬nFrags ≤ page.fragmentsPerBlock then none
  else if hint.isSome ∧ h.blocksPerPage * h.fragmentsPerBlock ≤ start then some (NO_FRAG, -1)
  else
    let firstByte := start >>> 3
    let firstBit := start &&& 7
    let bits := (BitsArray page h firstByte).toNat
    let bits := if firstBit ≠ 0 then bits ||| ((1 <<< firstBit) - 1) else bits
    if h.fragmentsPerBlock ≤ 8 then findInByte page h logged nFrags (256 * (h.bitsLength + 1)) firstByte bits
    else findAcross page h logged nFrags (h.bitsLength + 1) firstByte bits 0 true

end dce.episode.bitmap
