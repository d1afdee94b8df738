import Dce.Lib.Layout

open lib

namespace dce.episode.logbuf

def LOGREC_OLDDATA : BitVec 16 := 0x8000

def LOGREC_NEWDATA : BitVec 16 := 0x4000

def LOGREC_BASE_DATA : BitVec 16 := 0x0037

def LOGREC_BEND : BitVec 16 := 0x0D63 ||| LOGREC_OLDDATA

def LOGREC_END : BitVec 16 := 0x24D0

def LOGREC_CKPT : BitVec 16 := 0x2781

def LOGREC_RSTRT : BitVec 16 := 0x3F0E

def LOGREC_BASE_FILL : BitVec 16 := 0x1A7D

def LOGREC_DATA : BitVec 16 := LOGREC_BASE_DATA ||| LOGREC_OLDDATA ||| LOGREC_NEWDATA

def LOGREC_ODATA : BitVec 16 := LOGREC_BASE_DATA ||| LOGREC_OLDDATA

def LOGREC_NDATA : BitVec 16 := LOGREC_BASE_DATA ||| LOGREC_NEWDATA

def LOGREC_NFILL : BitVec 16 := LOGREC_BASE_FILL ||| LOGREC_NEWDATA

def LOGREC_OFILL : BitVec 16 := LOGREC_BASE_FILL ||| LOGREC_OLDDATA

def LOGREC_FILL : BitVec 16 := LOGREC_BASE_FILL ||| LOGREC_OLDDATA ||| LOGREC_NEWDATA

section Types

variable (type : BitVec 16)

def LOGREC_HASOLDDATA : Bool := type &&& LOGREC_OLDDATA != 0

def LOGREC_HASNEWDATA : Bool := type &&& LOGREC_NEWDATA != 0

def LOGREC_HASDATA : Bool := type &&& (LOGREC_OLDDATA ||| LOGREC_NEWDATA) != 0

def LOGREC_TYPE_MASK : BitVec 16 := ~~~(LOGREC_OLDDATA ||| LOGREC_NEWDATA)

def LOGREC_BASE_TYPE : BitVec 16 := type &&& LOGREC_TYPE_MASK

def LOGREC_ISDATA : Bool := LOGREC_BASE_TYPE type == LOGREC_BASE_DATA

def LOGREC_ISFILL : Bool := LOGREC_BASE_TYPE type == LOGREC_BASE_FILL

def LOGREC_ISBEND : Bool := LOGREC_BASE_TYPE type == LOGREC_BASE_TYPE LOGREC_BEND

def LOGREC_ISRECOVERABLE : Bool :=
  type == LOGREC_DATA || type == LOGREC_ODATA || type == LOGREC_NDATA || type == LOGREC_OFILL || type == LOGREC_NFILL

def LOGREC_NOSPLIT : Bool := !LOGREC_ISDATA type

theorem LOGREC_HASDATA_eq : LOGREC_HASDATA type = (LOGREC_HASOLDDATA type || LOGREC_HASNEWDATA type) := by
  have hor : type &&& (LOGREC_OLDDATA ||| LOGREC_NEWDATA) = (type &&& LOGREC_OLDDATA) ||| (type &&& LOGREC_NEWDATA) := by
    rw [BitVec.and_or_distrib_left]
  rw [LOGREC_HASDATA, LOGREC_HASOLDDATA, LOGREC_HASNEWDATA, hor, Bool.eq_iff_iff, Bool.or_eq_true, bne_iff_ne, bne_iff_ne,
    bne_iff_ne, show (0 : BitVec 16) = 0#16 from rfl, Ne, BitVec.or_eq_zero_iff, not_and_or]

end Types

def ALIGN_SIZE : ℕ := 4

def ALIGN (n : ℕ) : ℕ := roundUp ALIGN_SIZE n

def sizeof_logRecHdr : ℕ := 32

def sizeof_lsn : ℕ := 4

/-- `struct logRecHdr`. -/
structure logRecHdr where
  recType : BitVec 16
  refCount : BitVec 16
  dataLength : BitVec 32
  tranId : BitVec 32
  deviceHandle : BitVec 32
  dataAddr : BitVec 32
  dataOffset : BitVec 16
  prevLogRecOff : BitVec 16
  spare0 : BitVec 32
  spare1 : BitVec 32
  deriving DecidableEq

/-- All fields are zero but `dataOffset`, which is invalid. -/
def elbr_InitLogRecHdr : logRecHdr := ⟨0, 0, 0, 0, 0, 0, 0xFFFF, 0, 0, 0⟩

namespace logRecHdr

def sizes : List ℕ := [2, 2, 4, 4, 4, 4, 2, 2, 4, 4]

variable (hdr : logRecHdr)

def values : List ℕ :=
  [hdr.recType.toNat, hdr.refCount.toNat, hdr.dataLength.toNat, hdr.tranId.toNat, hdr.deviceHandle.toNat, hdr.dataAddr.toNat,
    hdr.dataOffset.toNat, hdr.prevLogRecOff.toNat, hdr.spare0.toNat, hdr.spare1.toNat]

/-- The header with these fields, in the order of the `struct`. -/
def ofValues (values : List ℕ) : logRecHdr where
  recType := BitVec.ofNat 16 (values.getD 0 0)
  refCount := BitVec.ofNat 16 (values.getD 1 0)
  dataLength := BitVec.ofNat 32 (values.getD 2 0)
  tranId := BitVec.ofNat 32 (values.getD 3 0)
  deviceHandle := BitVec.ofNat 32 (values.getD 4 0)
  dataAddr := BitVec.ofNat 32 (values.getD 5 0)
  dataOffset := BitVec.ofNat 16 (values.getD 6 0)
  prevLogRecOff := BitVec.ofNat 16 (values.getD 7 0)
  spare0 := BitVec.ofNat 32 (values.getD 8 0)
  spare1 := BitVec.ofNat 32 (values.getD 9 0)

def image (order : ByteOrder) : List Byte := order.storeAll sizes hdr.values

def ofImage (order : ByteOrder) (bytes : List Byte) : logRecHdr := ofValues (order.loadAll sizes bytes)

theorem ofValues_values : ofValues hdr.values = hdr := by
  simp [ofValues, values]

theorem fit : ByteOrder.Fit sizes hdr.values := by
  refine .cons hdr.recType.isLt (.cons hdr.refCount.isLt (.cons hdr.dataLength.isLt (.cons hdr.tranId.isLt
    (.cons hdr.deviceHandle.isLt (.cons hdr.dataAddr.isLt (.cons hdr.dataOffset.isLt (.cons hdr.prevLogRecOff.isLt
      (.cons hdr.spare0.isLt (.cons hdr.spare1.isLt .nil)))))))))

@[simp]
theorem length_image (order : ByteOrder) : (hdr.image order).length = sizeof_logRecHdr := order.length_storeAll hdr.fit

@[simp]
theorem ofImage_image (order : ByteOrder) : ofImage order (hdr.image order) = hdr := by
  rw [ofImage, image, order.loadAll_storeAll hdr.fit, ofValues_values]

end logRecHdr

section Sizes

variable (type : BitVec 16) (dataLength : ℕ)

def OldDataSize : ℕ := if LOGREC_HASOLDDATA type then dataLength else 0

def NewDataSize : ℕ := if LOGREC_HASNEWDATA type then dataLength else 0

def OldFillSize : ℕ := if LOGREC_HASOLDDATA type then ALIGN_SIZE else 0

def NewFillSize : ℕ := if LOGREC_HASNEWDATA type then ALIGN_SIZE else 0

def NewLogrecSize : ℕ :=
  sizeof_logRecHdr + sizeof_lsn +
    if LOGREC_ISFILL type then OldFillSize type + NewFillSize type
    else if LOGREC_HASDATA type then OldDataSize type dataLength + NewDataSize type dataLength
    else 0

end Sizes

section Offsets

variable (hdr : logRecHdr)

def OldDataLength : ℕ :=
  if LOGREC_ISFILL hdr.recType then OldFillSize hdr.recType else OldDataSize hdr.recType hdr.dataLength.toNat

def NewDataLength : ℕ :=
  if LOGREC_ISFILL hdr.recType then NewFillSize hdr.recType else NewDataSize hdr.recType hdr.dataLength.toNat

def DataLength : ℕ := ALIGN (OldDataLength hdr + NewDataLength hdr)

def OldDataOffset : ℕ := ALIGN sizeof_logRecHdr

def NewDataOffset : ℕ := OldDataOffset + OldDataLength hdr

def LSNOffset : ℕ := sizeof_logRecHdr + DataLength hdr

def NextRecOffset : ℕ := LSNOffset hdr + sizeof_lsn

end Offsets

theorem le_ALIGN (n : ℕ) : n ≤ ALIGN n := le_roundUp (by decide) n

@[simp]
theorem OldDataOffset_eq : OldDataOffset = sizeof_logRecHdr := by decide

theorem NewLogrecSize_eq (hdr : logRecHdr) :
    NewLogrecSize hdr.recType hdr.dataLength.toNat = sizeof_logRecHdr + sizeof_lsn + (OldDataLength hdr + NewDataLength hdr) := by
  unfold NewLogrecSize OldDataLength NewDataLength
  by_cases hfill : LOGREC_ISFILL hdr.recType
  · simp only [if_pos hfill]
  · simp only [if_neg hfill, LOGREC_HASDATA_eq]
    unfold OldDataSize NewDataSize
    cases LOGREC_HASOLDDATA hdr.recType <;> cases LOGREC_HASNEWDATA hdr.recType <;> simp

theorem NextRecOffset_eq (hdr : logRecHdr) :
    NextRecOffset hdr = roundUp ALIGN_SIZE (NewLogrecSize hdr.recType hdr.dataLength.toNat) := by
  rw [NewLogrecSize_eq, roundUp_add (by decide) (by decide), NextRecOffset, LSNOffset, DataLength, ALIGN, Nat.add_right_comm]

theorem dvd_NextRecOffset (hdr : logRecHdr) : ALIGN_SIZE ∣ NextRecOffset hdr := by
  rw [NextRecOffset_eq]
  exact dvd_roundUp _ _

theorem le_NextRecOffset (hdr : logRecHdr) : sizeof_logRecHdr + sizeof_lsn ≤ NextRecOffset hdr := by
  unfold NextRecOffset LSNOffset
  omega

/-- `struct logRec`, a record in memory. -/
structure logRec where
  hdr : logRecHdr
  oldData : List Byte
  newData : List Byte
  lsn : BitVec 32
  deriving DecidableEq

/-- How many bytes of data a record of this type has for a length: a fill record has one byte for all of them. -/
def dataCount (type : BitVec 16) (dataLength : ℕ) : ℕ := if LOGREC_ISFILL type then min 1 dataLength else dataLength

def oldCount (type : BitVec 16) (dataLength : ℕ) : ℕ := if LOGREC_HASOLDDATA type then dataCount type dataLength else 0

def newCount (type : BitVec 16) (dataLength : ℕ) : ℕ := if LOGREC_HASNEWDATA type then dataCount type dataLength else 0

theorem oldCount_le (hdr : logRecHdr) : oldCount hdr.recType hdr.dataLength.toNat ≤ OldDataLength hdr := by
  unfold oldCount OldDataLength OldFillSize OldDataSize dataCount ALIGN_SIZE
  split <;> split <;> omega

theorem newCount_le (hdr : logRecHdr) : newCount hdr.recType hdr.dataLength.toNat ≤ NewDataLength hdr := by
  unfold newCount NewDataLength NewFillSize NewDataSize dataCount ALIGN_SIZE
  split <;> split <;> omega

theorem data_le_LSNOffset (hdr : logRecHdr) : sizeof_logRecHdr + (OldDataLength hdr + NewDataLength hdr) ≤ LSNOffset hdr :=
  Nat.add_le_add_left (le_ALIGN _) _

def GetLogrecHdr (order : ByteOrder) (buf : Memory) (offset : ℕ) : logRecHdr :=
  logRecHdr.ofImage order (buf.read offset sizeof_logRecHdr)

/-- The record at an offset, through the macros that find its parts. -/
def GetLogrec (order : ByteOrder) (buf : Memory) (offset : ℕ) : logRec :=
  let hdr := GetLogrecHdr order buf offset
  { hdr
    oldData := buf.read (offset + OldDataOffset) (oldCount hdr.recType hdr.dataLength.toNat)
    newData := buf.read (offset + NewDataOffset hdr) (newCount hdr.recType hdr.dataLength.toNat)
    lsn := BitVec.ofNat 32 (order.load (buf.read (offset + LSNOffset hdr) sizeof_lsn)) }

end dce.episode.logbuf
