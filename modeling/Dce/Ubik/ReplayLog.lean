import Dce.Ubik.Log

open lib

namespace dce.ubik

/-- What the first pass of `ReplayLog` reads of one record: the opcode, and the
parameters as they lie in its `buffer`. -/
inductive ScanItem where
  | new
  | truncate (buffer0 buffer1 : Long)
  | data (buffer0 buffer1 buffer2 : Long)
  | commit
  deriving DecidableEq, Repr

/-- What the second pass of `ReplayLog` does for one record. -/
inductive ReplayItem where
  | new
  | truncate (file length : Long)
  | data (file pos : Long) (bytes : List Byte)
  | setlabel (version : Version)
  deriving DecidableEq, Repr

/-- How `ReplayLog` ends. -/
inductive ReplayCode where
  | ok
  | UBADLOG
  /-- A call on the disk is refused. -/
  | failed
  /-- `afsos_panic`. -/
  | panic
  deriving DecidableEq, Repr

/-- The `k`th `long` of a buffer. -/
def longAt (order : ByteOrder) (buffer : List Byte) (k : ℕ) : Long := order.ofMemory ((buffer.drop (4 * k)).take 4)

/-- `read` on the log at a position that arithmetic on the log may have made
negative. Positions inside the header count as bad ones. -/
def readLog (d : Disk) (tpos : ℤ) (length : ℕ) : Option (List Byte) :=
  if tpos < 0 then none else uphys_read d LOGFILE tpos.toNat length

/-- The first pass of `ReplayLog`: is there a commit record? A record with a
negative length can send it round for ever, so the loop has fuel. -/
def scanLog (order : ByteOrder) (d : Disk) : ℕ → ℤ → Option (Bool × List ScanItem)
  | 0, _ => none
  | fuel + 1, tpos =>
    match readLog d tpos 4 with
    | none => some (false, [])
    | some bytes =>
      let opcode := longAt order bytes 0
      if opcode = LOGNEW then
        (scanLog order d fuel (tpos + 4)).map fun (good, items) => (good, .new :: items)
      else if opcode = LOGABORT then some (false, [])
      else if opcode = LOGEND then some (true, [.commit])
      else if opcode = LOGTRUNCATE then
        let tpos := tpos + 4
        match readLog d tpos 8 with
        | none => some (false, [])
        | some buffer =>
          (scanLog order d fuel (tpos + 8)).map fun (good, items) =>
            (good, .truncate (longAt order buffer 0) (longAt order buffer 1) :: items)
      else if opcode = LOGDATA then
        let tpos := tpos + 4
        match readLog d tpos 12 with
        | none => some (false, [])
        | some buffer =>
          (scanLog order d fuel (tpos + ((longAt order buffer 2).toInt + 12))).map fun (good, items) =>
            (good, .data (longAt order buffer 0) (longAt order buffer 1) (longAt order buffer 2) :: items)
      else some (false, [])

/-- The copy loop of the second pass: `len` bytes of the log at `tpos` go to `file`
at `filePos`, at most 4096 of them at a time. The result is the log position
behind them, and the bytes copied. -/
def copyData (d : Disk) (file : ℤ) (tpos : ℤ) (filePos len : ℕ) : Disk × ReplayCode × ℤ × List Byte :=
  if _hdone : len = 0 then (d, .ok, tpos, [])
  else
    let thisSize := min len 4096
    match readLog d tpos thisSize with
    | none => (d, .UBADLOG, tpos, [])
    | some bytes =>
      let d := uphys_write d file filePos bytes
      let (d, code, tpos, rest) := copyData d file (tpos + thisSize) (filePos + thisSize) (len - thisSize)
      (d, code, tpos, bytes ++ rest)
termination_by len
decreasing_by omega

/-- The state the second pass of `ReplayLog` ends in. -/
structure Replay where
  disk : Disk
  code : ReplayCode
  items : List ReplayItem

def Replay.cons (item : ReplayItem) (r : Replay) : Replay := { r with items := item :: r.items }

/-- The second pass of `ReplayLog`. Syncing the files written is left out. -/
def replayPass (order : ByteOrder) : ℕ → ℤ → Disk → Option Replay
  | 0, _, _ => none
  | fuel + 1, tpos, d =>
    match readLog d tpos 4 with
    | none => some ⟨d, .UBADLOG, []⟩
    | some bytes =>
      let opcode := longAt order bytes 0
      if opcode = LOGNEW then (replayPass order fuel (tpos + 4) d).map (.cons .new)
      else if opcode = LOGABORT then some ⟨d, .panic, []⟩
      else if opcode = LOGEND then
        let tpos := tpos + 4
        match readLog d tpos 8 with
        | none => some ⟨d, .UBADLOG, []⟩
        | some buffer =>
          let version : Version := ⟨(longAt order buffer 0).toInt, (longAt order buffer 1).toInt⟩
          some ⟨uphys_setlabel d 0 version, .ok, [.setlabel version]⟩
      else if opcode = LOGTRUNCATE then
        let tpos := tpos + 4
        match readLog d tpos 8 with
        | none => some ⟨d, .UBADLOG, []⟩
        | some buffer =>
          let tpos := tpos + 8
          let file := order.ntohl (longAt order buffer 0)
          let length := order.ntohl (longAt order buffer 1)
          match Long.toOffset length with
          | none => some ⟨d, .failed, [.truncate file length]⟩
          | some size => (replayPass order fuel tpos (uphys_truncate d file.toInt size)).map (.cons (.truncate file length))
      else if opcode = LOGDATA then
        let tpos := tpos + 4
        match readLog d tpos 12 with
        | none => some ⟨d, .UBADLOG, []⟩
        | some buffer =>
          let tpos := tpos + 12
          let len := order.ntohl (longAt order buffer 2)
          let filePos := order.ntohl (longAt order buffer 1)
          let tfile := order.ntohl (longAt order buffer 0)
          match Long.toOffset filePos with
          | none =>
            -- a negative length copies nothing, so only a write can find the position bad
            if 0 < len.toInt then some ⟨d, .UBADLOG, [.data tfile filePos []]⟩
            else (replayPass order fuel tpos d).map (.cons (.data tfile filePos []))
          | some pos =>
            match copyData d tfile.toInt tpos pos len.toInt.toNat with
            | (d, .ok, tpos, bytes) => (replayPass order fuel tpos d).map (.cons (.data tfile filePos bytes))
            | (d, code, _, bytes) => some ⟨d, code, [.data tfile filePos bytes]⟩
      else some ⟨d, .UBADLOG, []⟩

/-- `ReplayLog`: look for a commit record, replay the log if there is one, and
discard the log. -/
def ReplayLog (order : ByteOrder) (fuel : ℕ) (d : Disk) : Option (Disk × ReplayCode) :=
  match scanLog order d fuel 0 with
  | none => none
  | some (false, _) => some (uphys_truncate d LOGFILE 0, .ok)
  | some (true, _) =>
    match replayPass order fuel 0 d with
    | none => none
    | some r => if r.code = .ok then some (uphys_truncate r.disk LOGFILE 0, .ok) else some (r.disk, r.code)

/-- `InitializeDB`, when the disk takes a new label. The version is what the
server takes the database to be. -/
def InitializeDB (d : Disk) : Disk × Version :=
  match uphys_getlabel d 0 with
  | some version => (d, version)
  | none => (uphys_setlabel d 0 ⟨1, 1⟩, ⟨1, 1⟩)

def urecovery_Initialize (order : ByteOrder) (fuel : ℕ) (d : Disk) : Option (Disk × Option Version) :=
  match ReplayLog order fuel d with
  | none => none
  | some (d, .ok) => some ((InitializeDB d).1, some (InitializeDB d).2)
  | some (d, _) => some (d, none)

end dce.ubik
