import Dce.Epi.LogPage

open lib

namespace dce.episode.logbuf

def MAX_ALLOC_SIZE : ℕ := 64 * 1024 + 1

/-- What the log relies on of a device. -/
structure async_device where
  blkSize : ℕ
  positive : 0 < blkSize
  aligned : 1024 ∣ blkSize
  valid : blkSize < MAX_ALLOC_SIZE

/-- The log of an aggregate, with what its pages find around them: the old contents of the buffer each page is built in, and
the number of pages in transit and the time when it is written. -/
structure Log where
  order : ByteOrder
  adev : async_device
  logLocnArraySize : ℕ
  numBufs : BitVec 16
  cksum_ver : BitVec 8
  known : KnownChecksumType cksum_ver
  buffer : ℕ → Memory
  inTransit : ℕ → BitVec 16
  time : ℕ → BitVec 32
  CalcCRC32Std : LogPage → BitVec 32

/-- `struct elbt_TranRec`; a transaction never has the null identifier. -/
structure elbt_TranRec where
  tranId : BitVec 32
  valid : tranId ≠ 0
  refCount : BitVec 16
  dev : async_device
  tranSize : BitVec 32
  lastPass : BitVec 16
  lastOffset : ℕ

/-- `struct logMap`. Pages are counted from the beginning of the log; `oldestBuffer` and `oldestTran` are the pages that the
oldest dirty buffer and the oldest transaction hold. -/
structure logMap where
  passno : BitVec 16
  currentLogBlock : ℕ
  lsn : BitVec 32
  current : LogPage
  written : List LogPage
  trans : ℕ → elbt_TranRec
  oldestBuffer : Option ℕ
  oldestTran : Option ℕ

/-- What one record is to log: the arguments of `WriteLocked`. Data is what the pointer to it points to. -/
structure Update where
  tP : ℕ
  recType : BitVec 16
  dataLength : ℕ
  diskBlock : BitVec 32
  dataOffset : ℕ
  oldData : Memory
  newData : Memory

/-- `a - b` in an unsigned word. -/
def minus (a b : ℕ) : ℕ := (a + 2 ^ 32 - b) % 2 ^ 32

theorem minus_of_le {a b : ℕ} (ha : a < 2 ^ 32) (h : b ≤ a) : minus a b = a - b := by
  rw [minus, Nat.sub_add_comm h, Nat.add_mod_right, Nat.mod_eq_of_lt (by omega)]

def IncPassno (passno : BitVec 16) : BitVec 16 := if passno + 1 = 0 then passno + 2 else passno + 1

/-- The sequence number after this one; zero is not used. -/
def nextLsn (lsn : BitVec 32) : BitVec 32 := if lsn + 1 = 0 then 1 else lsn + 1

def Update.take (u : Update) (len : ℕ) : Update := { u with dataLength := len }

/-- An update without its first bytes; there are always more of them. -/
def Update.drop (u : Update) (len : ℕ) : Update :=
  { u with
    dataLength := u.dataLength - len
    dataOffset := u.dataOffset + len
    oldData := fun k => u.oldData (k + len)
    newData := fun k => u.newData (k + len) }

def Update.hdr (u : Update) (tranId : BitVec 32) (refCount lastLogRecOff : BitVec 16) : logRecHdr :=
  { elbr_InitLogRecHdr with
    recType := u.recType
    refCount := refCount
    dataLength := BitVec.ofNat 32 u.dataLength
    tranId := tranId
    dataAddr := u.diskBlock
    dataOffset := BitVec.ofNat 16 u.dataOffset
    prevLogRecOff := lastLogRecOff }

namespace logMap

variable (log : Log) (lmP : logMap)

def page : ℕ := lmP.written.length

/-- `COMPUTE_TRAN_ACTIVE_LOG_SIZE` and `COMPUTE_DATA_ACTIVE_LOG_SIZE`: both ends count. -/
def activeSizeFrom (oldest : Option ℕ) : ℕ := oldest.elim 1 fun first => 1 + (lmP.page - first)

/-- `ComputeActiveLog`. -/
def activeSize : ℕ := max (lmP.activeSizeFrom lmP.oldestBuffer) (lmP.activeSizeFrom lmP.oldestTran)

def LOG_FULL_BUFFER : ℕ := 3

/-- The block of the page that something holds, of the current page when nothing does. -/
def oldestBlock (oldest : Option ℕ) : BitVec 16 :=
  BitVec.ofNat 16 (oldest.elim lmP.currentLogBlock (· % log.logLocnArraySize))

def InitNewPage : logMap :=
  { lmP with
    current :=
      { hdr :=
          { elbr_InitLogPageHdr log.cksum_ver with
            passNumber := lmP.passno
            pageNumber := BitVec.ofNat 32 lmP.currentLogBlock
            io_window := log.numBufs }
        data := log.buffer lmP.page } }

/-- The checksum is stored behind the header. Of the known versions only `LOGREC_CKSUMVER_CRC32_STD_ALL` has one that is
calculated. -/
def elbr_ChecksumLogPage (log : Log) (logPage : LogPage) : LogPage :=
  if logPage.hdr.cksum_ver = LOGREC_CKSUMVER_CRC32_STD_ALL then
    { logPage with
      data := logPage.data.write sizeof_logPageHdr
        (log.order.store (GetChecksumLength logPage.hdr.cksum_ver) (log.CalcCRC32Std logPage).toNat) }
  else logPage

/-- The current page as `NewLogPage` hands it to the device. -/
def finished : LogPage :=
  elbr_ChecksumLogPage log
    { lmP.current with
      hdr :=
        { lmP.current.hdr with
          oldestDataPage := lmP.oldestBlock log lmP.oldestBuffer
          oldestTranPage := lmP.oldestBlock log lmP.oldestTran
          io_window := log.inTransit lmP.page
          timeWritten := log.time lmP.page } }

def advance : logMap :=
  if log.logLocnArraySize ≤ lmP.currentLogBlock + 1 then
    { lmP with
      currentLogBlock := (lmP.currentLogBlock + 1) % log.logLocnArraySize
      passno := IncPassno lmP.passno }
  else { lmP with currentLogBlock := lmP.currentLogBlock + 1 }

def NewLogPage : logMap :=
  ({ lmP with written := lmP.written ++ [lmP.finished log] }.advance log).InitNewPage log

def GetNewRecordOffset : Option ℕ :=
  if lmP.current.hdr.lastLogRecOff ≠ 0 then
    some (lmP.current.hdr.lastLogRecOff.toNat +
      NextRecOffset (GetLogrecHdr log.order lmP.current.data lmP.current.hdr.lastLogRecOff.toNat))
  else elbr_FirstLogRecordOffset lmP.current.hdr

def LogPageRemaining (log : Log) (offset : ℕ) : ℕ := minus log.adev.blkSize offset

def IsLogPageFull (log : Log) (offset : ℕ) : Prop := LogPageRemaining log offset < NewLogrecSize LOGREC_DATA ALIGN_SIZE

instance (log : Log) (offset : ℕ) : Decidable (IsLogPageFull log offset) := inferInstanceAs (Decidable (_ < _))

/-- `WriteLogRecord`: the header, the sequence number and the data are stored at an offset of the current page. -/
def WriteLogRecord (u : Update) (newRecOffset : ℕ) : Option logMap :=
  let tP := lmP.trans u.tP
  let hdr := u.hdr tP.tranId (tP.refCount + 1) lmP.current.hdr.lastLogRecOff
  let lsn := nextLsn lmP.lsn
  let blkSize := log.adev.blkSize
  (lmP.current.data.store blkSize newRecOffset (hdr.image log.order)).bind fun data =>
  (data.store blkSize (newRecOffset + LSNOffset hdr) (log.order.store sizeof_lsn lsn.toNat)).bind fun data =>
  (data.store blkSize (newRecOffset + OldDataOffset) (u.oldData.read 0 (oldCount u.recType u.dataLength))).bind fun data =>
  (data.store blkSize (newRecOffset + NewDataOffset hdr) (u.newData.read 0 (newCount u.recType u.dataLength))).map fun data =>
    { lmP with
      lsn := lsn
      current := { hdr := { lmP.current.hdr with lastLogRecOff := BitVec.ofNat 16 newRecOffset }, data := data }
      trans := Function.update lmP.trans u.tP
        { tP with refCount := tP.refCount + 1, tranSize := tP.tranSize + BitVec.ofNat 32 (NextRecOffset hdr) } }

def UpdateTran (tP : ℕ) : logMap :=
  { lmP with
    trans := Function.update lmP.trans tP
      { lmP.trans tP with lastPass := lmP.passno, lastOffset := lmP.currentLogBlock } }

/-- The part of `WriteLocked` for a record that fits: when the page is full behind it, the next page is begun. -/
def WriteFitting (u : Update) (newRecOffset : ℕ) : Option logMap :=
  (lmP.WriteLogRecord log u newRecOffset).bind fun lmP =>
    let lmP := lmP.UpdateTran u.tP
    (lmP.GetNewRecordOffset log).map fun newRecOffset =>
      if IsLogPageFull log newRecOffset then lmP.NewLogPage log else lmP

/-- How much data of a record that is split goes on the page. -/
def chunk (log : Log) (recType : BitVec 16) (newRecOffset : ℕ) : ℕ :=
  let newRecSize := minus (LogPageRemaining log newRecOffset) (NewLogrecSize LOGREC_DATA 0)
  if LOGREC_HASOLDDATA recType && LOGREC_HASNEWDATA recType then newRecSize / 2 else newRecSize

mutual

/-- `WriteLocked`. The call and its loop go on as long as there is fuel. -/
def WriteLocked : ℕ → logMap → Update → ℕ → Option logMap
  | 0, _, _, _ => none
  | fuel + 1, lmP, u, newRecOffset =>
    if log.adev.blkSize ≤ newRecOffset then none
    else if LogPageRemaining log newRecOffset < NewLogrecSize u.recType u.dataLength then
      if LOGREC_NOSPLIT u.recType then
        ((lmP.NewLogPage log).GetNewRecordOffset log).bind (WriteLocked fuel (lmP.NewLogPage log) u)
      else WriteSplit fuel lmP u newRecOffset
    else lmP.WriteFitting log u newRecOffset

/-- The loop of `WriteLocked` that splits a record, and the call behind it. -/
def WriteSplit : ℕ → logMap → Update → ℕ → Option logMap
  | 0, _, _, _ => none
  | fuel + 1, lmP, u, newRecOffset =>
    if LogPageRemaining log newRecOffset < NewLogrecSize u.recType u.dataLength then
      (WriteLocked fuel lmP (u.take (chunk log u.recType newRecOffset)) newRecOffset).bind fun lmP =>
        (lmP.GetNewRecordOffset log).bind
          (WriteSplit fuel lmP (u.drop (chunk log u.recType newRecOffset)))
    else WriteLocked fuel lmP u newRecOffset

end

/-- `ForceMap`, as far as it changes the pages: the current page is written when the log is forced to it and it is not
empty. -/
def ForceMap (pageOffset : ℕ) : logMap :=
  if lmP.currentLogBlock = pageOffset ∧ lmP.current.hdr.lastLogRecOff ≠ 0 then lmP.NewLogPage log else lmP

/-- Whether the log has no room for so many more blocks. While the map is locked nothing lets go of either end of the active
log, so that the second turn of the loop, after the wait for the pages in transit, finds what the first one found. -/
def LogTooFull (thisBlocks : ℕ) : Bool × logMap :=
  let fits := fun (lmP : logMap) => lmP.activeSize + LOG_FULL_BUFFER + thisBlocks ≤ log.logLocnArraySize
  if fits lmP then (false, lmP)
  else if lmP.activeSizeFrom lmP.oldestTran < lmP.activeSize then (true, lmP)
  else
    let forced := lmP.ForceMap log lmP.currentLogBlock
    if fits forced then (false, forced) else (true, forced)

def AgeBuffer : logMap := { lmP with oldestBuffer := some (lmP.oldestBuffer.getD lmP.page) }

def BytesToLogBlocks (log : Log) (bytes : ℕ) : ℕ := (bytes + (log.adev.blkSize - 1)) / log.adev.blkSize

end logMap

/-- A data buffer. -/
structure buffer where
  blockNum : BitVec 32
  data : Memory

/-- What the calls return. -/
inductive Code where
  | BUFFER_OK
  | LOG_LOGFULL
  deriving DecidableEq

section Calls

variable (log : Log) (fuel : ℕ) (lmP : logMap)

/-- The call of `WriteLocked` behind the current record. -/
def writeNext (u : Update) : Option logMap := (lmP.GetNewRecordOffset log).bind (logMap.WriteLocked log fuel lmP u)

def elbl_WriteExtended (u : Update) : Option logMap :=
  if u.dataLength ≤ (lmP.trans u.tP).dev.blkSize then writeNext log fuel lmP u else none

/-- The update that `elbl_Write` asks for: the same data is the old and the new one. -/
def writeUpdate (tP : ℕ) (recType : BitVec 16) (dataLength : ℕ) (data : Memory) : Update :=
  { tP, recType, dataLength, diskBlock := 0, dataOffset := 0, oldData := data, newData := data }

def elbl_Write (tP : ℕ) (recType : BitVec 16) (dataLength : ℕ) (data : Memory) : Option logMap :=
  if dataLength ≤ (lmP.trans tP).dev.blkSize then writeNext log fuel lmP (writeUpdate tP recType dataLength data) else none

/-- The update that `elbl_WriteWithBuffer` asks for: the old data is in the buffer, the source of a fill is always `newData`. -/
def bufferUpdate (tP : ℕ) (recType : BitVec 16) (dataLength dataOffset : ℕ) (bP : buffer) (newData : Memory) : Update :=
  { tP
    recType
    dataLength
    diskBlock := bP.blockNum
    dataOffset
    oldData := if LOGREC_ISFILL recType then newData else fun k => bP.data (dataOffset + k)
    newData }

/-- How many more blocks of the log a record takes from an offset on. -/
def thisBlocks (recType : BitVec 16) (dataLength newRecOffset : ℕ) : ℕ :=
  let thisSize := NewLogrecSize recType dataLength
  let minSize := NewLogrecSize LOGREC_DATA ALIGN_SIZE
  let remaining := logMap.LogPageRemaining log newRecOffset
  if thisSize + minSize ≤ remaining then 0
  else if thisSize ≤ remaining then 1
  else 1 + logMap.BytesToLogBlocks log (thisSize - remaining)

/-- The record is put into the page without the call of `WriteLocked`; the page must not be full behind it. -/
def writeEasy (u : Update) (newRecOffset : ℕ) : Option logMap :=
  (lmP.WriteLogRecord log u newRecOffset).bind fun lmP =>
    let lmP := lmP.UpdateTran u.tP
    (lmP.GetNewRecordOffset log).bind fun newRecOffset => if logMap.IsLogPageFull log newRecOffset then none else some lmP

/-- The buffer is labelled with the last page of the transaction, which must not be the current one while that is empty. -/
def labelled (tP : ℕ) : Prop :=
  ¬((lmP.trans tP).lastPass = lmP.passno ∧ (lmP.trans tP).lastOffset = lmP.currentLogBlock ∧ lmP.current.hdr.lastLogRecOff = 0)

instance (tP : ℕ) : Decidable (labelled lmP tP) := inferInstanceAs (Decidable (¬(_ ∧ _ ∧ _)))

def elbl_WriteWithBuffer (tP : ℕ) (recType : BitVec 16) (dataLength dataOffset : ℕ) (bP : buffer) (newData : Memory) :
    Option (Code × logMap) :=
  let u := bufferUpdate tP recType dataLength dataOffset bP newData
  if dataLength ≤ (lmP.trans tP).dev.blkSize then
    (lmP.GetNewRecordOffset log).bind fun newRecOffset =>
      let blocks := thisBlocks log recType dataLength newRecOffset
      let answer := lmP.LogTooFull log blocks
      if answer.1 then some (.LOG_LOGFULL, answer.2)
      else
        let aged := answer.2.AgeBuffer
        (if 0 < blocks then logMap.WriteLocked log fuel aged u newRecOffset else writeEasy log aged u newRecOffset).bind fun lmP =>
          if labelled lmP tP then some (.BUFFER_OK, lmP) else none
  else none

/-- The reference that `elbl_WriteBend` counts for the transaction that ends. -/
def countReference (t2P : ℕ) : logMap :=
  { lmP with trans := Function.update lmP.trans t2P { lmP.trans t2P with refCount := (lmP.trans t2P).refCount + 1 } }

/-- The end record of a transaction as data of a batch end record, put over what the stack holds. -/
def bendData (t2P : ℕ) (tmpBuf : Memory) : Memory :=
  let hdr :=
    { GetLogrecHdr log.order tmpBuf 0 with
      recType := LOGREC_END
      refCount := (lmP.trans t2P).refCount
      dataLength := 0
      tranId := (lmP.trans t2P).tranId
      dataAddr := 0
      dataOffset := 0
      prevLogRecOff := lmP.current.hdr.lastLogRecOff }
  (tmpBuf.write 0 (hdr.image log.order)).write (LSNOffset hdr) (log.order.store sizeof_lsn (nextLsn lmP.lsn).toNat)

/-- The update that `elbl_WriteBend` asks for. A batch end record has no new data. -/
def bendUpdate (t1P t2P : ℕ) (tmpBuf : Memory) : Update where
  tP := t1P
  recType := LOGREC_BEND
  dataLength := NewLogrecSize LOGREC_END 0
  diskBlock := 0
  dataOffset := 0
  oldData := bendData log lmP t2P tmpBuf
  newData := fun _ => 0

def elbl_WriteBend (t1P t2P : ℕ) (tmpBuf : Memory) : Option logMap :=
  writeNext log fuel (countReference lmP t2P) (bendUpdate log (countReference lmP t2P) t1P t2P tmpBuf)

end Calls

/-- `elbl_InitLog`: the log begins with the pass behind that of the restart record. -/
def elbl_InitLog (log : Log) (passNumber : BitVec 16) (trans : ℕ → elbt_TranRec) : logMap :=
  logMap.InitNewPage log
    { passno := IncPassno passNumber
      currentLogBlock := 0
      lsn := 1
      current := { hdr := elbr_InitLogPageHdr log.cksum_ver, data := log.buffer 0 }
      written := []
      trans
      oldestBuffer := none
      oldestTran := none }

end dce.episode.logbuf
