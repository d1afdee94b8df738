import Dce.Bak.Database
import Dce.Lib.System

open lib

namespace dce.bak.alloc

/-- The types of the structures that share blocks. -/
inductive StructType where
  | volFragment
  | volInfo
  | tape
  | dump
  deriving DecidableEq, Repr

def nEntries : StructType → ℕ
  | .volFragment => 30
  | .volInfo => 5
  | .tape => 6
  | .dump => 2

def sizeEntries : StructType → ℕ
  | .volFragment => 64
  | .volInfo => 404
  | .tape => 336
  | .dump => 1012

/-- The type of a block. -/
inductive BlockType where
  | free_BLOCK
  | structure_BLOCK (type : StructType)
  /-- Hash tables and texts, whose blocks come from `AllocBlock`. -/
  | other
  deriving DecidableEq, Repr

structure BlockHeader where
  type : BlockType
  nFree : ℕ
  next : ℕ
  deriving DecidableEq

abbrev Octets := List Byte

def zeroWord : Octets := [0, 0, 0, 0]

/-- A block: its header, and the first word of each of its structures. -/
structure Block where
  h : BlockHeader
  word : ℕ → Octets

/-- A block after `bzero`. -/
def Block.zero : Block := ⟨⟨.free_BLOCK, 0, 0⟩, fun _ => zeroWord⟩

def Block.zeros (b : Block) (type : StructType) : ℕ := (List.range (nEntries type)).countP fun i => b.word i = zeroWord

/-- The header with the heads of the free lists, and the blocks by their addresses. -/
structure Database where
  eofPtr : ℕ
  /-- `freePtrs[0]`. -/
  freePtr : ℕ
  freePtrs : StructType → ℕ
  disk : ℕ → Block

def Database.next (db : Database) (a : ℕ) : ℕ := (db.disk a).h.next

section Calls

def dbread (db : Database) (pos : ℕ) : Except Stop Block := if db.eofPtr ≤ pos then .error Stop.BUDB_IO else .ok (db.disk pos)

/-- `dbwrite` of a block. -/
def dbwrite (db : Database) (pos : ℕ) (b : Block) : Except Stop Database :=
  if pos < sizeof_dbHeader ∨ db.eofPtr ≤ pos then .error Stop.BUDB_IO
  else if fileLimit < pos + BLOCKSIZE then .error .ubik
  else .ok { db with disk := Function.update db.disk pos b }

/-- `AllocBlock`: a cleared block. Words of the header can always be set, since they lie before `eofPtr`. -/
def AllocBlock (db : Database) : Except Stop (Database × ℕ) :=
  if db.freePtr = 0 then do
    let db' ← dbwrite { db with eofPtr := db.eofPtr + BLOCKSIZE } db.eofPtr Block.zero
    return (db', db.eofPtr)
  else do
    let b ← dbread db db.freePtr
    let db' ← dbwrite { db with freePtr := b.h.next } db.freePtr Block.zero
    return (db', db.freePtr)

/-- `FreeBlock`, which writes the header only. -/
def FreeBlock (db : Database) (a : ℕ) : Except Stop Database :=
  if a ≠ memoryDB.BlockBase a then .error .panicked
  else dbwrite { db with freePtr := a } a { db.disk a with h := ⟨.free_BLOCK, 0, db.freePtr⟩ }

def setFreePtr (db : Database) (type : StructType) (a : ℕ) : Database :=
  { db with freePtrs := Function.update db.freePtrs type a }

/-- The loop of `AllocStructure`, which gives blocks without structures back: the block it stops at. -/
def search (type : StructType) : ℕ → Database → Except Stop (Database × ℕ × Block)
  | count, db => do
    let a := db.freePtrs type
    let b ← dbread db a
    if b.h.nFree = 0 then .error .panicked
    else if b.h.next ≠ 0 ∧ b.h.nFree = nEntries type then
      match count with
      | 0 => return (db, a, b)
      | count + 1 => do
        let db' ← FreeBlock (setFreePtr db type b.h.next) a
        search type count db'
    else if b.h.nFree = 1 then return (setFreePtr db type b.h.next, a, b)
    else return (db, a, b)

def slotAddr (type : StructType) (a i : ℕ) : ℕ := a + sizeof_blockHeader + i * sizeEntries type

def firstFree (type : StructType) (b : Block) : Option ℕ := (List.range (nEntries type)).find? fun i => b.word i = zeroWord

/-- `AllocStructure`: the address of a structure whose first word is 1. -/
def AllocStructure (order : ByteOrder) (db : Database) (type : StructType) : Except Stop (Database × ℕ) :=
  if db.freePtrs type = 0 then do
    let (db', a) ← AllocBlock db
    let b : Block := ⟨⟨.structure_BLOCK type, nEntries type - 1, 0⟩, Function.update (fun _ => zeroWord) 0 (order.toMemory 1)⟩
    let db'' ← dbwrite (setFreePtr db' type a) a b
    return (db'', slotAddr type a 0)
  else do
    let (db', a, b) ← search type 10 db
    match firstFree type b with
    | none => .error .panicked
    | some i => do
      let db'' ← dbwrite db' a ⟨{ b.h with nFree := b.h.nFree - 1 }, Function.update b.word i (order.toMemory 1)⟩
      return (db'', slotAddr type a i)

/-- The structure of a block that an address names. -/
def slotIndex (type : StructType) (sa : ℕ) : ℕ := (sa - memoryDB.BlockBase sa - sizeof_blockHeader) / sizeEntries type

def FreeStructure (db : Database) (type : StructType) (sa : ℕ) : Except Stop Database := do
  let a := memoryDB.BlockBase sa
  let b ← dbread db a
  if b.h.type ≠ .structure_BLOCK type then .error .panicked
  else if nEntries type < b.h.nFree + 1 then .error .panicked
  else do
    let word := Function.update b.word (slotIndex type sa) zeroWord
    if b.h.nFree + 1 = 1 then dbwrite (setFreePtr db type a) a ⟨{ b.h with nFree := 1, next := db.freePtrs type }, word⟩
    else dbwrite db a ⟨{ b.h with nFree := b.h.nFree + 1 }, word⟩

end Calls

/-- A name as a call accepts it: a string that fits into its field. -/
abbrev Name (size : ℕ) := { name : List Byte // 0 ∉ name ∧ name.length < size }

/-- The field of a structure that lies in its first word. -/
inductive Record where
  | volFragment (vol : { vol : u_long // vol ≠ 0 })
  | volInfo (name : Name 128)
  | tape (name : Name 256)
  | dump (id : { id : u_long // id ≠ 0 })

def Record.type : Record → StructType
  | .volFragment _ => .volFragment
  | .volInfo _ => .volInfo
  | .tape _ => .tape
  | .dump _ => .dump

/-- `strcpy` of a name over the word 1 that `AllocStructure` has left in the caller's structure. -/
def strcpy (order : ByteOrder) (name : List Byte) : Octets := (name ++ 0 :: (order.toMemory 1).drop (name.length + 1)).take 4

/-- The first word of the structure that the caller writes. -/
def Record.firstWord (order : ByteOrder) : Record → Octets
  | .volFragment vol => order.toMemory (order.htonl vol.val)
  | .volInfo name => strcpy order name.val
  | .tape name => strcpy order name.val
  | .dump id => order.toMemory (order.htonl id.val)

def Record.unnamed : Record → Bool
  | .volInfo name => name.val.isEmpty
  | .tape name => name.val.isEmpty
  | _ => false

/-- What the callers hold. -/
structure Held where
  blocks : List ℕ
  structs : List (StructType × ℕ)

/-- The database, what is held of it, and both as they were when the transaction began. -/
structure State where
  db : Database
  held : Held
  saved : Database × Held
  panicked : Bool

/-- The calls of the allocator and what their callers write. -/
inductive Event where
  | AllocBlock
  | FreeBlock (a : ℕ)
  | writeBlock (a : ℕ) (b : Block)
  | AllocStructure (type : StructType)
  | FreeStructure (type : StructType) (sa : ℕ)
  | write (sa : ℕ) (record : Record)
  | endTrans
  | abortTrans

namespace State

def abort (s : State) : State := { s with db := s.saved.1, held := s.saved.2 }

/-- What becomes of the state after a call. An error makes the caller abort its transaction. -/
def after {α : Type} (s : State) (result : Except Stop α) (next : α → Database × Held) : State :=
  match result with
  | .ok x => { s with db := (next x).1, held := (next x).2 }
  | .error .panicked => { s with panicked := true }
  | .error _ => s.abort

def put (db : Database) (type : StructType) (sa : ℕ) (word : Octets) : Database :=
  let a := memoryDB.BlockBase sa
  { db with disk := Function.update db.disk a { db.disk a with word := Function.update (db.disk a).word (slotIndex type sa) word } }

def step (order : ByteOrder) (s : State) : Event → Option State
  | .AllocBlock => some (s.after (alloc.AllocBlock s.db) fun x => (x.1, { s.held with blocks := x.2 :: s.held.blocks }))
  | .FreeBlock a =>
    if a ∈ s.held.blocks then
      some (s.after (alloc.FreeBlock s.db a) fun db => (db, { s.held with blocks := s.held.blocks.erase a }))
    else none
  | .writeBlock a b =>
    if a ∈ s.held.blocks then some { s with db := { s.db with disk := Function.update s.db.disk a b } } else none
  | .AllocStructure type =>
    some (s.after (alloc.AllocStructure order s.db type) fun x => (x.1, { s.held with structs := (type, x.2) :: s.held.structs }))
  | .FreeStructure type sa =>
    if (type, sa) ∈ s.held.structs then
      some (s.after (alloc.FreeStructure s.db type sa) fun db => (db, { s.held with structs := s.held.structs.erase (type, sa) }))
    else none
  | .write sa record =>
    if (record.type, sa) ∈ s.held.structs then some { s with db := put s.db record.type sa (record.firstWord order) } else none
  | .endTrans => some { s with saved := (s.db, s.held) }
  | .abortTrans => some s.abort

end State

def Database.new : Database := ⟨sizeof_dbHeader, 0, fun _ => 0, fun _ => Block.zero⟩

/-- The allocator on a host, from a new database on. After a panic there are no more calls. -/
def allocator (order : ByteOrder) : System State Event where
  init s := s = ⟨Database.new, ⟨[], []⟩, (Database.new, ⟨[], []⟩), false⟩
  step s event := if s.panicked then none else s.step order event

end dce.bak.alloc
