import Dce.Lib.ByteFile

namespace dce.ubik

abbrev Addr := ℕ

/-- The value `lastYesHost` and `lowestHost` hold while they name no host. -/
abbrev noHost : Addr := 0xffffffff

abbrev MAXSKEW : ℕ := 40

abbrev BIGTIME : ℕ := 140

abbrev SMALLTIME : ℕ := 90

/-- `struct ubik_version`: the label of a database. -/
structure Version where
  epoch : ℤ
  counter : ℤ
  deriving DecidableEq, Repr, Inhabited

/-- `struct ubik_tid`: a transaction identifier. -/
structure Tid where
  epoch : ℤ
  counter : ℤ
  deriving DecidableEq, Repr, Inhabited

/-- The test of `urecovery_CheckTid`: a call or beacon with `atid` ends a remote
transaction with this identifier. -/
def Tid.endedBy (tid atid : Tid) : Bool := decide (atid.epoch ≠ tid.epoch ∨ atid.counter > tid.counter)

/-- A C `long` of the hosts this code runs on. -/
abbrev Long := BitVec 32

/-- A `long` that is not negative, as file numbers, positions and lengths are. -/
abbrev Offset := Fin (2 ^ 31)

instance neZero_offset : NeZero (2 ^ 31) := ⟨by decide⟩

/-- The `long` that holds an offset. -/
def Offset.toLong (n : Offset) : Long := BitVec.ofNat 32 n.val

/-- The offset a `long` stands for, if it is not negative. -/
def Long.toOffset (v : Long) : Option ℕ := if v.msb then none else some v.toNat

variable (n : Offset)

@[simp] theorem Offset.toNat_toLong : n.toLong.toNat = n.val := by
  have hlt := n.isLt
  simp only [Offset.toLong, BitVec.toNat_ofNat]
  omega

theorem Offset.msb_toLong : n.toLong.msb = false := by
  have hlt := n.isLt
  rw [BitVec.msb_eq_false_iff_two_mul_lt, Offset.toNat_toLong]
  omega

@[simp] theorem Offset.toOffset_toLong : Long.toOffset n.toLong = some n.val := by
  simp [Long.toOffset, Offset.msb_toLong]

@[simp] theorem Offset.toInt_toLong : n.toLong.toInt = n.val := by
  rw [BitVec.toInt_eq_toNat_of_msb n.msb_toLong, Offset.toNat_toLong]

end dce.ubik

open lib

namespace dce.ubik

/-- A file of the database: the label in its 64-byte header, missing while the
file is too short to hold one, and the bytes behind the header. -/
structure PhysFile where
  label : Option Version
  data : ByteFile

/-- The files of a database by number. Those below zero are ubik's own. -/
abbrev Disk := ℤ → PhysFile

abbrev LOGFILE : ℤ := -1

/-- `uphys_stat`: the size behind the header. -/
def uphys_stat (d : Disk) (file : ℤ) : ℕ := (d file).data.length

/-- `uphys_read` of exactly `length` bytes. Reading past the end is an error. -/
def uphys_read (d : Disk) (file : ℤ) (pos length : ℕ) : Option (List Byte) := (d file).data.read pos length

/-- `uphys_write`. The header of a file without one becomes zero. -/
def uphys_write (d : Disk) (file : ℤ) (pos : ℕ) (buffer : List Byte) : Disk :=
  Function.update d file
    { label := if buffer = [] then (d file).label else some ((d file).label.getD ⟨0, 0⟩)
      data := (d file).data.write pos buffer }

def uphys_truncate (d : Disk) (file : ℤ) (size : ℕ) : Disk :=
  Function.update d file
    { label := some ((d file).label.getD ⟨0, 0⟩)
      data := (d file).data.truncate size }

def uphys_getlabel (d : Disk) (file : ℤ) : Option Version := (d file).label

def uphys_setlabel (d : Disk) (file : ℤ) (version : Version) : Disk :=
  Function.update d file { d file with label := some version }

variable (d : Disk) {file other : ℤ}

@[simp] theorem uphys_write_other (pos : ℕ) (buffer : List Byte) (hne : other ≠ file) :
    uphys_write d file pos buffer other = d other := Function.update_of_ne hne _ _

@[simp] theorem uphys_truncate_other (size : ℕ) (hne : other ≠ file) :
    uphys_truncate d file size other = d other := Function.update_of_ne hne _ _

@[simp] theorem uphys_setlabel_other (version : Version) (hne : other ≠ file) :
    uphys_setlabel d file version other = d other := Function.update_of_ne hne _ _

@[simp] theorem uphys_write_data (file : ℤ) (pos : ℕ) (buffer : List Byte) :
    (uphys_write d file pos buffer file).data = (d file).data.write pos buffer := by
  simp [uphys_write]

@[simp] theorem uphys_truncate_data (file : ℤ) (size : ℕ) :
    (uphys_truncate d file size file).data = (d file).data.truncate size := by
  simp [uphys_truncate]

@[simp] theorem uphys_setlabel_data (file other : ℤ) (version : Version) :
    (uphys_setlabel d file version other).data = (d other).data := by
  by_cases hne : other = file
  · subst hne
    simp [uphys_setlabel]
  · rw [uphys_setlabel_other d version hne]

@[simp] theorem uphys_setlabel_label (file : ℤ) (version : Version) :
    (uphys_setlabel d file version file).label = some version := by
  simp [uphys_setlabel]

theorem uphys_write_append (file : ℤ) (pos : ℕ) (left right : List Byte) :
    uphys_write (uphys_write d file pos left) file (pos + left.length) right =
      uphys_write d file pos (left ++ right) := by
  unfold uphys_write
  rw [Function.update_idem, Function.update_self]
  simp only [ByteFile.write_append]
  by_cases hleft : left = []
  · simp [hleft]
  · simp [hleft]

end dce.ubik
