import Dce.Epi.LogWrite

open lib

namespace dce.episode.logbuf

/-- What may happen to a log between its beginning and a crash. -/
inductive Call where
  | Write (tP : ℕ) (recType : BitVec 16) (dataLength : ℕ) (data : Memory)
  | WriteExtended (u : Update)
  | WriteWithBuffer (tP : ℕ) (recType : BitVec 16) (dataLength dataOffset : ℕ) (bP : buffer) (newData : Memory)
  | WriteBend (t1P t2P : ℕ) (tmpBuf : Memory)
  | ForceMap (pageOffset : ℕ)
  /-- Buffers are cleaned and transactions begin and end. -/
  | Hold (oldestBuffer oldestTran : Option ℕ)

/-- A record that a call is to log, with the transaction as the call finds it. -/
structure Entry where
  u : Update
  tranId : BitVec 32
  refCount : BitVec 16

def Update.record (u : Update) (tranId : BitVec 32) (refCount prev : BitVec 16) (lsn : BitVec 32) : logRec where
  hdr := u.hdr tranId refCount prev
  oldData := u.oldData.read 0 (oldCount u.recType u.dataLength)
  newData := u.newData.read 0 (newCount u.recType u.dataLength)
  lsn := lsn

/-- These records log an update, with the sequence numbers and the references that follow the given ones: either one record
does, or data is cut into records that follow one another in its range of bytes. -/
inductive Renders (tranId : BitVec 32) : BitVec 32 → BitVec 16 → Update → List logRec → Prop where
  | whole (lsn : BitVec 32) (refCount : BitVec 16) (u : Update) (prev : BitVec 16) :
    Renders tranId lsn refCount u [u.record tranId (refCount + 1) prev (nextLsn lsn)]
  | cut (lsn : BitVec 32) (refCount : BitVec 16) (u : Update) (prev : BitVec 16) {len : ℕ} {recs : List logRec} :
    LOGREC_ISDATA u.recType → LOGREC_HASDATA u.recType → 0 < len → len < u.dataLength →
    Renders tranId (nextLsn lsn) (refCount + 1) (u.drop len) recs →
    Renders tranId lsn refCount u ((u.take len).record tranId (refCount + 1) prev (nextLsn lsn) :: recs)

/-- These records log these entries, in their order. -/
inductive LogHolds : BitVec 32 → List Entry → List logRec → Prop where
  | nil (lsn : BitVec 32) : LogHolds lsn [] []
  | cons {lsn : BitVec 32} {e : Entry} {entries : List Entry} {recs more : List logRec} :
    Renders e.tranId lsn e.refCount e.u recs → LogHolds (nextLsn^[recs.length] lsn) entries more →
    LogHolds lsn (e :: entries) (recs ++ more)

section Run

variable (log : Log) (fuel : ℕ) (lmP : logMap)

def Entry.of (u : Update) : Entry := ⟨u, (lmP.trans u.tP).tranId, (lmP.trans u.tP).refCount⟩

def Call.entry : Call → Option Entry
  | .Write tP recType dataLength data => some (.of lmP (writeUpdate tP recType dataLength data))
  | .WriteExtended u => some (.of lmP u)
  | .WriteWithBuffer tP recType dataLength dataOffset bP newData =>
    some (.of lmP (bufferUpdate tP recType dataLength dataOffset bP newData))
  | .WriteBend t1P t2P tmpBuf => some (.of (countReference lmP t2P) (bendUpdate log (countReference lmP t2P) t1P t2P tmpBuf))
  | .ForceMap _ => none
  | .Hold _ _ => none

def Call.refused : Call → Bool
  | .WriteWithBuffer _ recType dataLength _ _ _ =>
    ((lmP.GetNewRecordOffset log).map fun newRecOffset =>
      (lmP.LogTooFull log (thisBlocks log recType dataLength newRecOffset)).1).getD false
  | _ => false

def Call.perform : Call → Option (Code × logMap)
  | .Write tP recType dataLength data => (elbl_Write log fuel lmP tP recType dataLength data).map fun lmP => (.BUFFER_OK, lmP)
  | .WriteExtended u => (elbl_WriteExtended log fuel lmP u).map fun lmP => (.BUFFER_OK, lmP)
  | .WriteWithBuffer tP recType dataLength dataOffset bP newData =>
    elbl_WriteWithBuffer log fuel lmP tP recType dataLength dataOffset bP newData
  | .WriteBend t1P t2P tmpBuf => (elbl_WriteBend log fuel lmP t1P t2P tmpBuf).map fun lmP => (.BUFFER_OK, lmP)
  | .ForceMap pageOffset => some (.BUFFER_OK, lmP.ForceMap log pageOffset)
  | .Hold oldestBuffer oldestTran => some (.BUFFER_OK, { lmP with oldestBuffer, oldestTran })

/-- The entries that a call has logged when it returned this code. -/
def Call.logged (c : Call) (code : Code) : List Entry := if code = .BUFFER_OK then (c.entry log lmP).toList else []

end Run

/-- The log behind some calls, with all that they logged. -/
def run (log : Log) (fuel : ℕ) : logMap → List Call → Option (logMap × List Entry)
  | lmP, [] => some (lmP, [])
  | lmP, c :: calls =>
    (c.perform log fuel lmP).bind fun returned =>
      (run log fuel returned.2 calls).map fun behind => (behind.1, c.logged log lmP returned.1 ++ behind.2)

/-- The pages of a log, in their order; the current page is one when it has records. -/
def logMap.pages (lmP : logMap) : List LogPage :=
  if lmP.current.hdr.lastLogRecOff = 0 then lmP.written else lmP.written ++ [lmP.current]

/-- The offset of the first record on the pages of a log. -/
def Log.first (log : Log) : ℕ := sizeof_logPageHdr + GetChecksumLength log.cksum_ver

/-- All calls return without a byte stored outside of a page, and the pages parse to the records of what the calls logged. -/
def LogsBack (log : Log) (lmP : logMap) (calls : List Call) : Prop :=
  ∃ lmP' entries, (∃ enough, ∀ fuel, enough ≤ fuel → run log fuel lmP calls = some (lmP', entries)) ∧
    ∃ groups : List (List logRec), lmP'.pages.map (parsePage log.order) = groups.map some ∧
      (∀ recs ∈ groups, Linked 0 log.first recs) ∧ LogHolds lmP.lsn entries groups.flatten

def Call.Returns (log : Log) (lmP : logMap) (c : Call) (returned : Code × logMap) : Prop :=
  ∃ enough, ∀ fuel, enough ≤ fuel → c.perform log fuel lmP = some returned

/-- A record that is not split fits an empty page. -/
def Fits (log : Log) (u : Update) : Prop :=
  LOGREC_NOSPLIT u.recType → NewLogrecSize u.recType u.dataLength ≤ log.adev.blkSize - log.first

/-- A record that fits an empty page and that the parser accepts. -/
def Admissible (log : Log) (e : Entry) : Prop := Fits log e.u ∧ VerifyRecord (e.u.hdr e.tranId e.refCount 0)

/-- Every call is refused or logs an admissible record, each in the state that it finds. -/
def AllAdmissible (log : Log) : logMap → List Call → Prop
  | _, [] => True
  | lmP, c :: calls =>
    (c.refused log lmP = false → ∀ e ∈ c.entry log lmP, Admissible log e) ∧
      ∀ returned, c.Returns log lmP returned → AllAdmissible log returned.2 calls

def Call.InBlock (trans : ℕ → elbt_TranRec) : Call → Prop
  | .Write tP _ dataLength _ => dataLength ≤ (trans tP).dev.blkSize
  | .WriteExtended u => u.dataOffset < (trans u.tP).dev.blkSize ∧ u.dataOffset + u.dataLength ≤ (trans u.tP).dev.blkSize
  | .WriteWithBuffer tP _ dataLength dataOffset _ _ =>
    dataOffset < (trans tP).dev.blkSize ∧ dataOffset + dataLength ≤ (trans tP).dev.blkSize
  | _ => True

/-- The parts of a record, stored from an offset on in the order of `WriteLogRecord`. -/
def putRecord (order : ByteOrder) (m : Memory) (offset : ℕ) (r : logRec) : Memory :=
  (((m.write offset (r.hdr.image order)).write (offset + LSNOffset r.hdr) (order.store sizeof_lsn r.lsn.toNat)).write
    (offset + OldDataOffset) r.oldData).write (offset + NewDataOffset r.hdr) r.newData

/-- A record with as much data as its header says. -/
structure logRec.Sized (r : logRec) : Prop where
  old : r.oldData.length = oldCount r.hdr.recType r.hdr.dataLength.toNat
  new : r.newData.length = newCount r.hdr.recType r.hdr.dataLength.toNat

section Put

variable {order : ByteOrder} {m : Memory} {offset : ℕ} {r : logRec}

theorem logRec.Sized.ends (h : r.Sized) : OldDataOffset + r.oldData.length ≤ NewDataOffset r.hdr ∧
    NewDataOffset r.hdr + r.newData.length ≤ LSNOffset r.hdr := by
  have hold := oldCount_le r.hdr
  have hnew := newCount_le r.hdr
  have hdata := data_le_LSNOffset r.hdr
  rw [h.old, h.new, NewDataOffset, OldDataOffset_eq]
  omega

theorem putRecord_outside (h : r.Sized) {a : ℕ} (ha : a < offset ∨ offset + NextRecOffset r.hdr ≤ a) :
    putRecord order m offset r a = m a := by
  obtain ⟨hold, hnew⟩ := h.ends
  have hnext : NextRecOffset r.hdr = LSNOffset r.hdr + sizeof_lsn := rfl
  have hmin := le_NextRecOffset r.hdr
  have hOld := OldDataOffset_eq
  rw [putRecord, Memory.write_outside _ (by omega), Memory.write_outside _ (by omega),
    Memory.write_outside _ (by rw [ByteOrder.length_store]; omega),
    Memory.write_outside _ (by rw [logRecHdr.length_image]; omega)]

theorem GetLogrec_putRecord (h : r.Sized) : GetLogrec order (putRecord order m offset r) offset = r := by
  obtain ⟨hold, hnew⟩ := h.ends
  have hOld := OldDataOffset_eq
  have hNew : NewDataOffset r.hdr = sizeof_logRecHdr + OldDataLength r.hdr := by rw [NewDataOffset, OldDataOffset_eq]
  have hhdr : GetLogrecHdr order (putRecord order m offset r) offset = r.hdr := by
    have hLSN := data_le_LSNOffset r.hdr
    have hread : (putRecord order m offset r).read offset (r.hdr.image order).length = r.hdr.image order := by
      rw [putRecord, Memory.read_write_outside _ (by rw [logRecHdr.length_image]; omega),
        Memory.read_write_outside _ (by rw [logRecHdr.length_image]; omega),
        Memory.read_write_outside _ (by rw [logRecHdr.length_image]; omega), Memory.read_write_same]
    rw [logRecHdr.length_image] at hread
    rw [GetLogrecHdr, hread, logRecHdr.ofImage_image]
  have hreadOld : (putRecord order m offset r).read (offset + OldDataOffset) r.oldData.length = r.oldData := by
    rw [putRecord, Memory.read_write_outside _ (by omega), Memory.read_write_same]
  have hreadNew : (putRecord order m offset r).read (offset + NewDataOffset r.hdr) r.newData.length = r.newData := by
    rw [putRecord, Memory.read_write_same]
  have hreadLsn : (putRecord order m offset r).read (offset + LSNOffset r.hdr) sizeof_lsn = order.store sizeof_lsn r.lsn.toNat := by
    have hsame := Memory.read_write_same (m.write offset (r.hdr.image order)) (offset + LSNOffset r.hdr)
      (order.store sizeof_lsn r.lsn.toNat)
    rw [ByteOrder.length_store] at hsame
    rw [putRecord, Memory.read_write_outside _ (by omega), Memory.read_write_outside _ (by omega), hsame]
  have hlsn : BitVec.ofNat 32 (order.load (order.store sizeof_lsn r.lsn.toNat)) = r.lsn := by
    rw [ByteOrder.load_store, Nat.mod_eq_of_lt (show _ < 256 ^ sizeof_lsn from r.lsn.isLt), BitVec.ofNat_toNat,
      BitVec.setWidth_eq]
  simp only [GetLogrec, hhdr]
  rw [← h.old, ← h.new, hreadOld, hreadNew, hreadLsn, hlsn]

end Put

section Device

variable (log : Log)

theorem GetChecksumLength_le {cksumVer : BitVec 8} (h : KnownChecksumType cksumVer) :
    GetChecksumLength cksumVer = 0 ∨ GetChecksumLength cksumVer = 4 := by
  have hlt : cksumVer.toNat < 3 := h
  have hcases : cksumVer.toNat = 0 ∨ cksumVer.toNat = 1 ∨ cksumVer.toNat = 2 := by omega
  rcases hcases with h0 | h1 | h2
  · exact .inl (by rw [GetChecksumLength, h0]; rfl)
  · exact .inr (by rw [GetChecksumLength, h1]; rfl)
  · exact .inr (by rw [GetChecksumLength, h2]; rfl)

theorem elbr_FirstLogRecordOffset_eq {hdr : logPageHdr} (hknown : KnownChecksumType hdr.cksum_ver)
    (hlen : hdr.cksum_len = BitVec.ofNat 8 (GetChecksumLength hdr.cksum_ver)) :
    elbr_FirstLogRecordOffset hdr = some (sizeof_logPageHdr + GetChecksumLength hdr.cksum_ver) := by
  have hnat : hdr.cksum_len.toNat = GetChecksumLength hdr.cksum_ver := by
    rw [hlen, BitVec.toNat_ofNat]
    exact Nat.mod_eq_of_lt (by rcases GetChecksumLength_le hknown with h | h <;> omega)
  have hattributes : RetrieveLogPageChecksumAttributes hdr = (false, GetChecksumLength hdr.cksum_ver) := by
    rw [RetrieveLogPageChecksumAttributes, if_pos hknown, if_neg (fun h => h.1 hnat)]
  simp [elbr_FirstLogRecordOffset, hattributes]

theorem first_bounds : 36 ≤ log.first ∧ log.first ≤ 40 ∧ ALIGN_SIZE ∣ log.first := by
  have hlen := GetChecksumLength_le log.known
  unfold Log.first sizeof_logPageHdr ALIGN_SIZE
  rcases hlen with h | h <;> rw [h] <;> decide

theorem blkSize_bounds (adev : async_device) : 1024 ≤ adev.blkSize ∧ adev.blkSize ≤ 65536 ∧ ALIGN_SIZE ∣ adev.blkSize := by
  obtain ⟨k, hk⟩ := adev.aligned
  have hpos := adev.positive
  have hvalid := adev.valid
  unfold MAX_ALLOC_SIZE at hvalid
  unfold ALIGN_SIZE
  omega

end Device

theorem IncPassno_ne_zero (passno : BitVec 16) : IncPassno passno ≠ 0 := by
  unfold IncPassno
  split <;> bv_omega

theorem IncPassno_ne (passno : BitVec 16) : IncPassno passno ≠ passno := by
  unfold IncPassno
  split <;> bv_omega

theorem Chain.last {order : ByteOrder} {buf : Memory} {offset : ℕ} {recs : List logRec} {r : logRec}
    (h : Chain order buf offset (recs ++ [r])) : GetLogrec order buf (offset + extent recs) = r := by
  induction recs generalizing offset with
  | nil => exact h.1
  | cons first recs ih =>
    rw [extent_cons, ← Nat.add_assoc]
    exact ih h.2

variable (log : Log)

/-- The pages of a log that has no room problem: those written hold these records, each some, and the current page these. -/
structure Pages (lmP : logMap) (groups : List (List logRec)) (recs : List logRec) : Prop where
  written : List.Forall₂ (fun page recs => Holds log.order page log.first recs ∧ recs ≠ []) lmP.written groups
  current : Holds log.order lmP.current log.first recs
  version : lmP.current.hdr.cksum_ver = log.cksum_ver
  inside : log.first + extent recs ≤ log.adev.blkSize
  pass : lmP.passno ≠ 0

/-- A log between two records: the current page is not full. -/
structure Logged (lmP : logMap) (groups : List (List logRec)) (recs : List logRec) : Prop extends Pages log lmP groups recs where
  room : log.first + extent recs + NewLogrecSize LOGREC_DATA ALIGN_SIZE ≤ log.adev.blkSize

variable {log} {lmP : logMap} {groups : List (List logRec)} {recs : List logRec}

theorem dvd_extent (recs : List logRec) : ALIGN_SIZE ∣ extent recs := by
  induction recs with
  | nil => exact dvd_zero _
  | cons r recs ih => exact (extent_cons r recs) ▸ dvd_add (dvd_NextRecOffset r.hdr) ih

theorem Pages.GetNewRecordOffset_eq (h : Pages log lmP groups recs) :
    lmP.GetNewRecordOffset log = some (log.first + extent recs) := by
  have hfirst := first_bounds log
  rcases List.eq_nil_or_concat recs with rfl | ⟨init, r, rfl⟩
  · have hzero : lmP.current.hdr.lastLogRecOff = 0 := by
      apply BitVec.eq_of_toNat_eq
      rw [h.current.last]
      rfl
    rw [logMap.GetNewRecordOffset, if_neg (not_not.mpr hzero), h.current.begins, extent_nil, Nat.add_zero]
  · rw [List.concat_eq_append] at h ⊢
    have hlast := h.current.last
    rw [lastOffset_append_singleton] at hlast
    have hnonzero : lmP.current.hdr.lastLogRecOff ≠ 0 := by
      intro hzero
      rw [hzero, show (0 : BitVec 16).toNat = 0 from rfl] at hlast
      omega
    have hhdr : GetLogrecHdr log.order lmP.current.data (log.first + extent init) = r.hdr :=
      congrArg logRec.hdr h.current.chain.last
    rw [logMap.GetNewRecordOffset, if_pos hnonzero, hlast, hhdr, extent_append, extent_cons, extent_nil, Nat.add_zero,
      Nat.add_assoc]

theorem Holds.congr {order : ByteOrder} {page page' : LogPage} {first : ℕ} {recs : List logRec} (h : Holds order page first recs)
    (hsalvage : page'.hdr.salvageID = page.hdr.salvageID) (hpass : page'.hdr.passNumber = page.hdr.passNumber)
    (hver : page'.hdr.cksum_ver = page.hdr.cksum_ver) (hlen : page'.hdr.cksum_len = page.hdr.cksum_len)
    (hlast : page'.hdr.lastLogRecOff = page.hdr.lastLogRecOff)
    (hdata : ∀ a, first ≤ a → page'.data a = page.data a) : Holds order page' first recs where
  salvage := hsalvage.trans h.salvage
  pass := hpass ▸ h.pass
  begins := by
    have hattributes : RetrieveLogPageChecksumAttributes page'.hdr = RetrieveLogPageChecksumAttributes page.hdr := by
      simp only [RetrieveLogPageChecksumAttributes, hver, hlen]
    rw [elbr_FirstLogRecordOffset, hattributes]
    exact h.begins
  chain := h.chain.congr fun a hle _ => hdata a hle
  last := hlast ▸ h.last
  linked := h.linked

theorem Pages.finished_holds (h : Pages log lmP groups recs) : Holds log.order (lmP.finished log) log.first recs := by
  unfold logMap.finished logMap.elbr_ChecksumLogPage
  split
  · rename_i hver
    have hlength : ∀ v, (log.order.store (GetChecksumLength lmP.current.hdr.cksum_ver) v).length = GetChecksumLength log.cksum_ver := by
      intro v
      rw [ByteOrder.length_store, h.version]
    exact h.current.congr rfl rfl rfl rfl rfl fun a hle =>
      Memory.write_outside _ (.inr (by rw [hlength]; exact hle))
  · exact h.current.congr rfl rfl rfl rfl rfl fun _ _ => rfl

theorem advance_passno_ne_zero {log : Log} {lmP : logMap} (h : lmP.passno ≠ 0) : (lmP.advance log).passno ≠ 0 := by
  unfold logMap.advance
  split
  · exact IncPassno_ne_zero _
  · exact h

theorem advance_ne {log : Log} {lmP : logMap} :
    ¬((lmP.advance log).passno = lmP.passno ∧ (lmP.advance log).currentLogBlock = lmP.currentLogBlock) := by
  unfold logMap.advance
  split
  · exact fun h => IncPassno_ne _ h.1
  · exact fun h => Nat.succ_ne_self _ h.2

@[simp]
theorem advance_written (log : Log) (lmP : logMap) : (lmP.advance log).written = lmP.written := by
  unfold logMap.advance
  split <;> rfl

@[simp]
theorem advance_lsn (log : Log) (lmP : logMap) : (lmP.advance log).lsn = lmP.lsn := by
  unfold logMap.advance
  split <;> rfl

@[simp]
theorem advance_trans (log : Log) (lmP : logMap) : (lmP.advance log).trans = lmP.trans := by
  unfold logMap.advance
  split <;> rfl

theorem InitNewPage_holds (log : Log) {lmP : logMap} (hpass : lmP.passno ≠ 0) :
    Holds log.order (lmP.InitNewPage log).current log.first [] where
  salvage := rfl
  pass := hpass
  begins := elbr_FirstLogRecordOffset_eq log.known rfl
  chain := trivial
  last := rfl
  linked := trivial

theorem empty_room (log : Log) : log.first + extent [] + NewLogrecSize LOGREC_DATA ALIGN_SIZE ≤ log.adev.blkSize := by
  have hfirst := first_bounds log
  have hblk := blkSize_bounds log.adev
  have hsize : NewLogrecSize LOGREC_DATA ALIGN_SIZE = 44 := by decide
  rw [extent_nil, hsize]
  omega

theorem Pages.NewLogPage (h : Pages log lmP groups recs) (hne : recs ≠ []) :
    Logged log (lmP.NewLogPage log) (groups ++ [recs]) [] := by
  have hpass : ({ lmP with written := lmP.written ++ [lmP.finished log] }.advance log : logMap).passno ≠ 0 :=
    advance_passno_ne_zero h.pass
  have hroom := empty_room log
  refine ⟨⟨?_, InitNewPage_holds log hpass, rfl, by omega, hpass⟩, hroom⟩
  have hwritten : (lmP.NewLogPage log).written = lmP.written ++ [lmP.finished log] :=
    advance_written log { lmP with written := lmP.written ++ [lmP.finished log] }
  rw [hwritten]
  exact List.rel_append h.written (.cons ⟨h.finished_holds, hne⟩ .nil)

theorem elbl_InitLog_logged (log : Log) (passNumber : BitVec 16) (trans : ℕ → elbt_TranRec) :
    Logged log (elbl_InitLog log passNumber trans) [] [] := by
  have hroom := empty_room log
  exact ⟨⟨.nil, InitNewPage_holds log (IncPassno_ne_zero passNumber), rfl, by omega, IncPassno_ne_zero passNumber⟩, hroom⟩

end dce.episode.logbuf

open lib

namespace dce.episode.logbuf

variable (log : Log) (lmP : logMap)

/-- The record that `WriteLogRecord` makes of an update. -/
def newRecord (u : Update) : logRec :=
  u.record (lmP.trans u.tP).tranId ((lmP.trans u.tP).refCount + 1) lmP.current.hdr.lastLogRecOff (nextLsn lmP.lsn)

/-- The log with that record at an offset of the current page. -/
def withRecord (u : Update) (newRecOffset : ℕ) : logMap :=
  { lmP with
    lsn := nextLsn lmP.lsn
    current :=
      { hdr := { lmP.current.hdr with lastLogRecOff := BitVec.ofNat 16 newRecOffset }
        data := putRecord log.order lmP.current.data newRecOffset (newRecord lmP u) }
    trans := Function.update lmP.trans u.tP
      { lmP.trans u.tP with
        refCount := (lmP.trans u.tP).refCount + 1
        tranSize := (lmP.trans u.tP).tranSize + BitVec.ofNat 32 (NextRecOffset (newRecord lmP u).hdr) } }

variable {log} {lmP} {u : Update} {newRecOffset : ℕ}

theorem Update.record_sized {tranId lsn : BitVec 32} {refCount prev : BitVec 16} (h : u.dataLength < 2 ^ 32) :
    (u.record tranId refCount prev lsn).Sized := by
  have hlength : (BitVec.ofNat 32 u.dataLength).toNat = u.dataLength := by
    rw [BitVec.toNat_ofNat, Nat.mod_eq_of_lt h]
  constructor
  · simp only [Update.record, Update.hdr, Memory.length_read, hlength]
  · simp only [Update.record, Update.hdr, Memory.length_read, hlength]

theorem WriteLogRecord_eq (hlen : u.dataLength < 2 ^ 32)
    (hroom : newRecOffset + NextRecOffset (newRecord lmP u).hdr ≤ log.adev.blkSize) :
    lmP.WriteLogRecord log u newRecOffset = some (withRecord log lmP u newRecOffset) := by
  have hsized : (newRecord lmP u).Sized := Update.record_sized hlen
  obtain ⟨hold, hnew⟩ := hsized.ends
  have hnext : NextRecOffset (newRecord lmP u).hdr = LSNOffset (newRecord lmP u).hdr + sizeof_lsn := rfl
  have hmin := data_le_LSNOffset (newRecord lmP u).hdr
  have hOld := OldDataOffset_eq
  have hstoreOld : newRecOffset + OldDataOffset + (u.oldData.read 0 (oldCount u.recType u.dataLength)).length ≤ log.adev.blkSize :=
    le_trans (show _ ≤ newRecOffset + LSNOffset (newRecord lmP u).hdr by
      change newRecOffset + OldDataOffset + (newRecord lmP u).oldData.length ≤ _
      omega) (by omega)
  have hstoreNew : newRecOffset + NewDataOffset (newRecord lmP u).hdr +
      (u.newData.read 0 (newCount u.recType u.dataLength)).length ≤ log.adev.blkSize :=
    le_trans (show _ ≤ newRecOffset + LSNOffset (newRecord lmP u).hdr by
      change newRecOffset + NewDataOffset (newRecord lmP u).hdr + (newRecord lmP u).newData.length ≤ _
      omega) (by omega)
  have hhdr : (newRecord lmP u).hdr =
      u.hdr (lmP.trans u.tP).tranId ((lmP.trans u.tP).refCount + 1) lmP.current.hdr.lastLogRecOff := rfl
  rw [hhdr] at hstoreNew
  unfold logMap.WriteLogRecord
  simp only
  rw [Memory.store_eq_some _ (by rw [logRecHdr.length_image]; omega), Option.bind_some,
    Memory.store_eq_some _ (by rw [ByteOrder.length_store]; exact hroom), Option.bind_some,
    Memory.store_eq_some _ hstoreOld, Option.bind_some, Memory.store_eq_some _ hstoreNew]
  rfl

theorem NextRecOffset_le_of_size {hdr : logRecHdr} {remaining : ℕ} (hdvd : ALIGN_SIZE ∣ remaining)
    (h : NewLogrecSize hdr.recType hdr.dataLength.toNat ≤ remaining) : NextRecOffset hdr ≤ remaining := by
  obtain ⟨k, rfl⟩ := hdvd
  rw [NextRecOffset_eq]
  unfold roundUp
  unfold ALIGN_SIZE at h ⊢
  omega

theorem newRecord_size (hlen : u.dataLength < 2 ^ 32) :
    NewLogrecSize (newRecord lmP u).hdr.recType (newRecord lmP u).hdr.dataLength.toNat = NewLogrecSize u.recType u.dataLength := by
  have hlength : (BitVec.ofNat 32 u.dataLength).toNat = u.dataLength := by
    rw [BitVec.toNat_ofNat, Nat.mod_eq_of_lt hlen]
  simp only [newRecord, Update.record, Update.hdr, hlength]

variable {groups : List (List logRec)} {recs : List logRec}

theorem Pages.withRecord (h : Pages log lmP groups recs) (hlen : u.dataLength < 2 ^ 32)
    (hroom : log.first + extent recs + NextRecOffset (newRecord lmP u).hdr ≤ log.adev.blkSize) :
    Pages log (withRecord log lmP u (log.first + extent recs)) groups (recs ++ [newRecord lmP u]) := by
  have hsized : (newRecord lmP u).Sized := Update.record_sized hlen
  have hblk := blkSize_bounds log.adev
  have hmin := le_NextRecOffset (newRecord lmP u).hdr
  have hoff : (BitVec.ofNat 16 (log.first + extent recs)).toNat = log.first + extent recs := by
    rw [BitVec.toNat_ofNat]
    exact Nat.mod_eq_of_lt (by simp only [sizeof_logRecHdr, sizeof_lsn] at hmin; omega)
  have hchain : Chain log.order (putRecord log.order lmP.current.data (log.first + extent recs) (newRecord lmP u)) log.first
      recs := h.current.chain.congr fun a _ hlt => putRecord_outside hsized (.inl hlt)
  refine ⟨h.written, ⟨h.current.salvage, h.current.pass, h.current.begins,
    hchain.append_singleton (GetLogrec_putRecord hsized), ?_, ?_⟩, h.version, ?_, h.pass⟩
  · rw [lastOffset_append_singleton]
    exact hoff
  · refine h.current.linked.append_singleton ?_
    have hprev : (newRecord lmP u).hdr.prevLogRecOff = lmP.current.hdr.lastLogRecOff := rfl
    rw [hprev, h.current.last]
    split
    · rename_i hnil
      rw [lastOffset, if_pos hnil]
    · rfl
  · rw [extent_append, extent_cons, extent_nil, Nat.add_zero, ← Nat.add_assoc]
    exact hroom

end dce.episode.logbuf
