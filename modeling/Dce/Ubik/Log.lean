import Dce.Ubik.Phys

open lib

namespace dce.ubik

abbrev LOGNEW : Long := 100
abbrev LOGEND : Long := 101
abbrev LOGABORT : Long := 102
abbrev LOGDATA : Long := 103
abbrev LOGTRUNCATE : Long := 104

/-- The epoch and counter of a version as `long`s. -/
def Version.longs (v : Version) : List Long := [BitVec.ofInt 32 v.epoch, BitVec.ofInt 32 v.counter]

/-- An array of `long`s as the host keeps it in memory. -/
def longsToMemory (order : ByteOrder) (data : List Long) : List Byte := (data.map order.toMemory).flatten

/-- Append an array of `long`s to the log: `stat` for the position, then `write`. -/
def appendLongs (order : ByteOrder) (d : Disk) (data : List Long) : Disk :=
  uphys_write d LOGFILE (uphys_stat d LOGFILE) (longsToMemory order data)

def udisk_LogOpcode (order : ByteOrder) (d : Disk) (opcode : Long) : Disk := appendLongs order d [order.htonl opcode]

def udisk_LogEnd (order : ByteOrder) (d : Disk) (version : Version) : Disk :=
  appendLongs order d (order.htonl LOGEND :: version.longs.map order.htonl)

def udisk_LogTruncate (order : ByteOrder) (d : Disk) (file length : Long) : Disk :=
  appendLongs order d [order.htonl LOGTRUNCATE, order.htonl file, order.htonl length]

/-- The header that `udisk_LogWriteData` puts before the data. -/
def logWriteHeader (order : ByteOrder) (d : Disk) (file pos len : Long) : Disk :=
  appendLongs order d [order.htonl LOGDATA, order.htonl file, order.htonl pos, order.htonl len]

/-- `udisk_LogWriteData`: the header, and then the data behind it. -/
def udisk_LogWriteData (order : ByteOrder) (d : Disk) (file pos len : Long) (buffer : List Byte) : Disk :=
  let lpos := uphys_stat d LOGFILE
  uphys_write (logWriteHeader order d file pos len) LOGFILE (lpos + 16) buffer

abbrev Block := { data : List Byte // data.length < 2 ^ 31 }

def Block.len (data : Block) : Offset := ⟨data.val.length, data.property⟩

/-- One update of a write transaction. -/
inductive Update where
  | write (file pos : Offset) (data : Block)
  | truncate (file length : Offset)

def logUpdate (order : ByteOrder) (d : Disk) : Update → Disk
  | .write file pos data => udisk_LogWriteData order d file.toLong pos.toLong data.len.toLong data.val
  | .truncate file length => udisk_LogTruncate order d file.toLong length.toLong

def logUpdates (order : ByteOrder) (d : Disk) (updates : List Update) : Disk :=
  updates.foldl (logUpdate order) (udisk_LogOpcode order d LOGNEW)

def logTransaction (order : ByteOrder) (d : Disk) (updates : List Update) (version : Version) : Disk :=
  udisk_LogEnd order (logUpdates order d updates) version

/-- The stated log format: four bytes an integer, in network byte order. -/
def encodeLongs (data : List Long) : List Byte := (data.map networkBytes).flatten

/-- The log record of an update in the stated format. -/
def Update.encode : Update → List Byte
  | .write file pos data => encodeLongs [LOGDATA, file.toLong, pos.toLong, data.len.toLong] ++ data.val
  | .truncate file length => encodeLongs [LOGTRUNCATE, file.toLong, length.toLong]

def encodeUpdates (updates : List Update) : List Byte := (updates.map Update.encode).flatten

def encodeEnd (version : Version) : List Byte := encodeLongs (LOGEND :: version.longs)

/-- The disk differs from `d` in its log only, which holds the given bytes. -/
structure LogIs (d d' : Disk) (bytes : List Byte) : Prop where
  log : (d' LOGFILE).data = ByteFile.ofList bytes
  other : ∀ file, file ≠ LOGFILE → d' file = d file

variable (order : ByteOrder) {bytes : List Byte} {d d' : Disk}

theorem longsToMemory_htonl (data : List Long) :
    longsToMemory order (data.map order.htonl) = encodeLongs data := by
  simp only [longsToMemory, encodeLongs, List.map_map]
  congr 2
  funext v
  simp

section

variable (hlog : LogIs d d' bytes)

include hlog

theorem LogIs.write (more : List Byte) : LogIs d (uphys_write d' LOGFILE bytes.length more) (bytes ++ more) where
  log := by rw [uphys_write_data, hlog.log, ByteFile.ofList_write_end]
  other file hne := (uphys_write_other d' _ _ hne).trans (hlog.other file hne)

theorem LogIs.stat : uphys_stat d' LOGFILE = bytes.length := by
  rw [uphys_stat, hlog.log, ByteFile.ofList_length]

theorem LogIs.appendLongs
    (data : List Long) : LogIs d (appendLongs order d' (data.map order.htonl)) (bytes ++ encodeLongs data) := by
  rw [dce.ubik.appendLongs, hlog.stat, longsToMemory_htonl]
  exact hlog.write _

theorem LogIs.udisk_LogOpcode (opcode : Long) : LogIs d (udisk_LogOpcode order d' opcode) (bytes ++ encodeLongs [opcode]) :=
  hlog.appendLongs order [opcode]

theorem LogIs.logWriteHeader (file pos len : Long) :
    LogIs d (logWriteHeader order d' file pos len) (bytes ++ encodeLongs [LOGDATA, file, pos, len]) :=
  hlog.appendLongs order [LOGDATA, file, pos, len]

theorem LogIs.logUpdate (update : Update) : LogIs d (logUpdate order d' update) (bytes ++ update.encode) := by
  cases update with
  | write file pos data =>
    have hheader := hlog.logWriteHeader order file.toLong pos.toLong data.len.toLong
    have hlen : (bytes ++ encodeLongs [LOGDATA, file.toLong, pos.toLong, data.len.toLong]).length =
        bytes.length + 16 := by simp [encodeLongs]
    have hdata := hheader.write data.val
    rw [hlen, List.append_assoc] at hdata
    simpa only [dce.ubik.logUpdate, udisk_LogWriteData, hlog.stat, Update.encode] using hdata
  | truncate file length => exact hlog.appendLongs order [LOGTRUNCATE, file.toLong, length.toLong]

theorem LogIs.logUpdates (updates : List Update) :
    LogIs d (updates.foldl (dce.ubik.logUpdate order) d') (bytes ++ encodeUpdates updates) := by
  induction updates generalizing d' bytes with
  | nil => simpa [encodeUpdates] using hlog
  | cons update updates ih =>
    have hrest := ih (hlog.logUpdate order update)
    simpa [encodeUpdates, List.append_assoc] using hrest

end

theorem logUpdates_logIs (d : Disk) (updates : List Update)
    (hempty : (d LOGFILE).data = ByteFile.empty) :
    LogIs d (logUpdates order d updates) (encodeLongs [LOGNEW] ++ encodeUpdates updates) := by
  have hstart : LogIs d d [] := ⟨hempty.trans ByteFile.ofList_nil.symm, fun _ _ => rfl⟩
  exact (hstart.udisk_LogOpcode order LOGNEW).logUpdates order updates

theorem logTransaction_logIs (d : Disk) (updates : List Update) (version : Version)
    (hempty : (d LOGFILE).data = ByteFile.empty) :
    LogIs d (logTransaction order d updates version)
      (encodeLongs [LOGNEW] ++ encodeUpdates updates ++ encodeEnd version) :=
  (logUpdates_logIs order d updates hempty).appendLongs order (LOGEND :: version.longs)

end dce.ubik
