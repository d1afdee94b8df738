import Dce.Epi.Logrec

open lib

namespace dce.episode.logbuf

def LOG_SALVAGE_MAGIC_NUMBER : BitVec 32 := 0x73697045

def LOGREC_BACK_COMPAT_CKSUM_LEN : BitVec 8 := 0

def LOGREC_CKSUMVER_CRC32_STD_ALL : BitVec 8 := 1

def cksumLen : List ℕ := [0, 4, 4]

def KnownChecksumType (cksumVer : BitVec 8) : Prop := cksumVer.toNat < cksumLen.length

instance (cksumVer : BitVec 8) : Decidable (KnownChecksumType cksumVer) := inferInstanceAs (Decidable (_ < _))

def GetChecksumLength (cksumVer : BitVec 8) : ℕ := cksumLen.getD cksumVer.toNat 0

/-- `struct logPageHdr`. -/
structure logPageHdr where
  passNumber : BitVec 16
  lastLogRecOff : BitVec 16
  pageNumber : BitVec 32
  salvageID : BitVec 32
  oldestDataPage : BitVec 16
  oldestTranPage : BitVec 16
  timeWritten : BitVec 32
  reserved : List (BitVec 32)
  io_window : BitVec 16
  cksum_ver : BitVec 8
  cksum_len : BitVec 8
  deriving DecidableEq

def sizeof_logPageHdr : ℕ := 36

def elbr_InitLogPageHdr (cksumVer : BitVec 8) : logPageHdr where
  passNumber := 0
  lastLogRecOff := 0
  pageNumber := 0
  salvageID := LOG_SALVAGE_MAGIC_NUMBER
  oldestDataPage := 0
  oldestTranPage := 0
  timeWritten := 0
  reserved := [0, 0, 0]
  io_window := 0
  cksum_ver := cksumVer
  cksum_len := BitVec.ofNat 8 (GetChecksumLength cksumVer)

/-- The length of the checksum; the first part tells whether the length in the header is bad. A length in a byte never
exceeds `LOGREC_CKSUM_MAX_LEN`. -/
def RetrieveLogPageChecksumAttributes (pgHdr : logPageHdr) : Bool × ℕ :=
  if KnownChecksumType pgHdr.cksum_ver then
    if pgHdr.cksum_len.toNat ≠ GetChecksumLength pgHdr.cksum_ver ∧ pgHdr.cksum_len ≠ LOGREC_BACK_COMPAT_CKSUM_LEN then
      (true, pgHdr.cksum_len.toNat)
    else (false, GetChecksumLength pgHdr.cksum_ver)
  else (false, pgHdr.cksum_len.toNat)

/-- Where the first record of a page lies; the code insists that the checksum length is not bad. -/
def elbr_FirstLogRecordOffset (pgHdr : logPageHdr) : Option ℕ :=
  let attributes := RetrieveLogPageChecksumAttributes pgHdr
  if attributes.1 then none else some (sizeof_logPageHdr + attributes.2)

/-- A page of the log. What lies behind the header is read and written by offsets from the beginning of the page. -/
structure LogPage where
  hdr : logPageHdr
  data : Memory

/-- What `VerifyRecord` insists on. -/
def VerifyRecord (hdr : logRecHdr) : Bool :=
  (hdr.tranId != 0 || hdr.recType == LOGREC_RSTRT || hdr.recType == LOGREC_CKPT) &&
    (LOGREC_ISRECOVERABLE hdr.recType ||
      ((!LOGREC_ISBEND hdr.recType || hdr.dataLength.toNat == NewLogrecSize LOGREC_END 0) &&
        hdr.dataAddr == 0 &&
        (hdr.dataOffset == 0 || hdr.recType == LOGREC_CKPT || hdr.recType == LOGREC_RSTRT)))

section Parse

variable (order : ByteOrder) (page : LogPage)

/-- The turns of the loop of `parsePage` from an offset on. -/
def parseFrom (offset : ℕ) : Option (List logRec) :=
  if offset = 0 ∨ page.hdr.lastLogRecOff.toNat < offset then none
  else if VerifyRecord (GetLogrec order page.data offset).hdr then
    if page.hdr.lastLogRecOff.toNat < offset + NextRecOffset (GetLogrec order page.data offset).hdr then
      some [GetLogrec order page.data offset]
    else
      (parseFrom (offset + NextRecOffset (GetLogrec order page.data offset).hdr)).map (GetLogrec order page.data offset :: ·)
  else none
  termination_by page.hdr.lastLogRecOff.toNat + 1 - offset
  decreasing_by
    have hnext : 0 < NextRecOffset (GetLogrec order page.data offset).hdr := by simp [NextRecOffset, sizeof_lsn]
    omega

def parsePage : Option (List logRec) :=
  if page.hdr.salvageID ≠ LOG_SALVAGE_MAGIC_NUMBER then none
  else if page.hdr.passNumber = 0 then some []
  else (elbr_FirstLogRecordOffset page.hdr).bind (parseFrom order page)

end Parse

def extent (recs : List logRec) : ℕ := (recs.map fun r => NextRecOffset r.hdr).sum

@[simp]
theorem extent_nil : extent [] = 0 := rfl

@[simp]
theorem extent_cons (r : logRec) (recs : List logRec) : extent (r :: recs) = NextRecOffset r.hdr + extent recs := rfl

@[simp]
theorem extent_append (left right : List logRec) : extent (left ++ right) = extent left + extent right := by
  simp [extent]

/-- These records lie one behind the other from an offset on. -/
def Chain (order : ByteOrder) (buf : Memory) : ℕ → List logRec → Prop
  | _, [] => True
  | offset, r :: recs => GetLogrec order buf offset = r ∧ Chain order buf (offset + NextRecOffset r.hdr) recs

/-- Each record names the offset of the one before it on its page; `prev` is that of the record before the first. -/
def Linked : ℕ → ℕ → List logRec → Prop
  | _, _, [] => True
  | prev, offset, r :: recs => r.hdr.prevLogRecOff.toNat = prev ∧ Linked offset (offset + NextRecOffset r.hdr) recs

/-- The offset of the last of some records that lie from an offset on, zero for none. -/
def lastOffset (first : ℕ) (recs : List logRec) : ℕ := if recs = [] then 0 else first + extent recs.dropLast

theorem lastOffset_append_singleton (first : ℕ) (recs : List logRec) (r : logRec) :
    lastOffset first (recs ++ [r]) = first + extent recs := by
  simp [lastOffset]

variable {recs : List logRec} {offset : ℕ}

theorem Linked.append_singleton {prev offset : ℕ} {r : logRec} (h : Linked prev offset recs)
    (hr : r.hdr.prevLogRecOff.toNat = if recs = [] then prev else lastOffset offset recs) :
    Linked prev offset (recs ++ [r]) := by
  induction recs generalizing prev offset with
  | nil => exact ⟨hr, trivial⟩
  | cons first recs ih =>
    refine ⟨h.1, ih h.2 ?_⟩
    rw [hr, if_neg (by simp), lastOffset, if_neg (by simp)]
    rcases eq_or_ne recs [] with rfl | hne
    · simp
    · rw [if_neg hne, lastOffset, if_neg hne, List.dropLast_cons_of_ne_nil hne, extent_cons, Nat.add_assoc]

theorem GetLogrec_congr {order : ByteOrder} {buf buf' : Memory}
    (h : ∀ a, offset ≤ a → a < offset + NextRecOffset (GetLogrec order buf offset).hdr → buf' a = buf a) :
    GetLogrec order buf' offset = GetLogrec order buf offset := by
  set hdr := GetLogrecHdr order buf offset with hhdr
  have hmin := le_NextRecOffset hdr
  have hold := oldCount_le hdr
  have hnew := newCount_le hdr
  have hdata := data_le_LSNOffset hdr
  have hnext : NextRecOffset hdr = LSNOffset hdr + sizeof_lsn := rfl
  have hread : ∀ start len : ℕ, start + len ≤ NextRecOffset hdr →
      buf'.read (offset + start) len = buf.read (offset + start) len := fun start len hle =>
    Memory.read_congr fun k hk => h _ (by omega) (lt_of_lt_of_le (by omega : _ < offset + NextRecOffset hdr) le_rfl)
  have hhdr' : GetLogrecHdr order buf' offset = hdr := by
    have hheader := hread 0 sizeof_logRecHdr (by omega)
    rw [hhdr]
    exact congrArg (logRecHdr.ofImage order) hheader
  have hNew : NewDataOffset hdr = sizeof_logRecHdr + OldDataLength hdr := by rw [NewDataOffset, OldDataOffset_eq]
  simp only [GetLogrec, hhdr', ← hhdr]
  rw [OldDataOffset_eq, hread _ _ (by omega), hread _ _ (by omega), hread _ _ (by omega)]

theorem Chain.congr {order : ByteOrder} {buf buf' : Memory} (hchain : Chain order buf offset recs)
    (h : ∀ a, offset ≤ a → a < offset + extent recs → buf' a = buf a) : Chain order buf' offset recs := by
  induction recs generalizing offset with
  | nil => trivial
  | cons r recs ih =>
    obtain ⟨rfl, hrest⟩ := hchain
    rw [extent_cons] at h
    refine ⟨GetLogrec_congr fun a hle hlt => h a hle (by omega), ih hrest fun a hle hlt => h a (by omega) (by omega)⟩

theorem Chain.append_singleton {order : ByteOrder} {buf : Memory} {r : logRec}
    (hchain : Chain order buf offset recs) (hr : GetLogrec order buf (offset + extent recs) = r) :
    Chain order buf offset (recs ++ [r]) := by
  induction recs generalizing offset with
  | nil => exact ⟨hr, trivial⟩
  | cons first recs ih =>
    refine ⟨hchain.1, ih hchain.2 ?_⟩
    rwa [Nat.add_assoc]

theorem parseFrom_chain {order : ByteOrder} {page : LogPage} (hne : recs ≠ [])
    (hpos : 0 < offset) (hchain : Chain order page.data offset recs)
    (hlast : page.hdr.lastLogRecOff.toNat = lastOffset offset recs) :
    parseFrom order page offset = if ∀ r ∈ recs, VerifyRecord r.hdr then some recs else none := by
  induction recs generalizing offset with
  | nil => exact absurd rfl hne
  | cons r recs ih =>
    obtain ⟨hr, hrest⟩ := hchain
    have hmin := le_NextRecOffset r.hdr
    have hlast' : page.hdr.lastLogRecOff.toNat = offset + extent (r :: recs).dropLast := by
      rw [hlast, lastOffset, if_neg (List.cons_ne_nil r recs)]
    rw [parseFrom, if_neg (by omega)]
    simp only [hr, List.forall_mem_cons]
    by_cases hverify : VerifyRecord r.hdr
    · rw [if_pos hverify]
      simp only [hverify, true_and]
      rcases eq_or_ne recs [] with rfl | hmore
      · have hend : page.hdr.lastLogRecOff.toNat < offset + NextRecOffset r.hdr := by
          have : page.hdr.lastLogRecOff.toNat = offset := hlast'
          simp only [sizeof_logRecHdr] at hmin
          omega
        rw [if_pos hend, if_pos (by simp)]
      · rw [List.dropLast_cons_of_ne_nil hmore, extent_cons] at hlast'
        have hnext : page.hdr.lastLogRecOff.toNat = lastOffset (offset + NextRecOffset r.hdr) recs := by
          rw [lastOffset, if_neg hmore]
          omega
        rw [if_neg (by omega), ih hmore (by omega) hrest hnext]
        split
        · rfl
        · rfl
    · rw [if_neg hverify, if_neg (fun h => hverify h.1)]

/-- A page on which these records lie, as the log leaves it. -/
structure Holds (order : ByteOrder) (page : LogPage) (first : ℕ) (recs : List logRec) : Prop where
  salvage : page.hdr.salvageID = LOG_SALVAGE_MAGIC_NUMBER
  pass : page.hdr.passNumber ≠ 0
  begins : elbr_FirstLogRecordOffset page.hdr = some first
  chain : Chain order page.data first recs
  last : page.hdr.lastLogRecOff.toNat = lastOffset first recs
  linked : Linked 0 first recs

theorem Holds.parsePage_eq {order : ByteOrder} {page : LogPage} {first : ℕ}
    (h : Holds order page first recs) (hpos : 0 < first) (hne : recs ≠ []) :
    parsePage order page = if ∀ r ∈ recs, VerifyRecord r.hdr then some recs else none := by
  rw [parsePage, if_neg (not_not.mpr h.salvage), if_neg h.pass, h.begins, Option.bind_some,
    parseFrom_chain hne hpos h.chain h.last]

end dce.episode.logbuf
