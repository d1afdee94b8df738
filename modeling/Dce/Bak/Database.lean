import Dce.Lib.Memory
import Dce.Lib.Places

open lib

namespace dce.bak

/-- `unsigned32`. -/
abbrev u_long := BitVec 32

def BLOCKSIZE : ℕ := 2048

def sizeof_blockHeader : ℕ := 24

def BLOCK_DATA_SIZE : ℕ := BLOCKSIZE - sizeof_blockHeader

def sizeof_dbHeader : ℕ := 920

def sizeof_db_lockT : ℕ := 56

def sizeof_textBlock : ℕ := 36

def TB_NUM : ℕ := 3

/-- Positions of a database file are of type `long`, and it ends before this one. -/
def fileLimit : ℕ := 2 ^ 31

/-- The types of blocks that matter for texts. -/
inductive BlockType where
  | free_BLOCK
  | text_BLOCK
  | other
  deriving DecidableEq, Repr

/-- The header of a block; the other fields belong to structures that are not texts. -/
structure blockHeader where
  type : BlockType
  next : ℕ

structure block where
  h : blockHeader
  a : Memory

/-- A block after `bzero`. -/
def block.zero : block := ⟨⟨.free_BLOCK, 0⟩, fun _ => 0⟩

/-- A text: its blocks, and those of the text that is to replace it. -/
structure textBlock where
  version : u_long
  size : ℕ
  textAddr : ℕ
  newsize : ℕ
  newTextAddr : ℕ
  deriving DecidableEq

/-- The lock of a text. -/
structure db_lockT where
  lockState : u_long
  lockTime : u_long
  expires : u_long
  instanceId : u_long
  deriving DecidableEq

/-- The parts of the database header that blocks and texts depend on, in the order of the host. -/
structure dbHeader where
  freePtr : ℕ
  eofPtr : ℕ
  textLocks : ℕ → db_lockT
  textBlock : ℕ → textBlock

/-- The database: its header, which is read in when a call starts, and what lies at every other address. -/
structure memoryDB where
  h : dbHeader
  disk : ℕ → block

/-- How a call ends that does not succeed. -/
inductive Stop where
  | BUDB_BADARGUMENT
  | BUDB_NOTPERMITTED
  | BUDB_NOTLOCKED
  | BUDB_LOCKED
  | BUDB_SELFLOCKED
  | BUDB_IO
  /-- `ubik_Seek` or `ubik_Write` fails. -/
  | ubik
  /-- The server stops in `db_panic`. -/
  | panicked
  /-- A loop that follows a chain does not end. -/
  | endless
  /-- Octets outside of a buffer are written. -/
  | overrun
  deriving DecidableEq, Repr

@[simp]
theorem Stop.ok_bind {α β : Type} (x : α) (f : α → Except Stop β) : ((.ok x : Except Stop α) >>= f) = f x := rfl

theorem Stop.ite_error_eq_ok {α : Type} {p : Prop} [Decidable p] {stop : Stop} {result : Except Stop α} {x : α} :
    (if p then .error stop else result) = .ok x ↔ ¬p ∧ result = .ok x := by
  by_cases hp : p <;> simp [hp]

@[simp]
theorem Stop.error_bind {α β : Type} (stop : Stop) (f : α → Except Stop β) :
    ((.error stop : Except Stop α) >>= f) = .error stop := rfl

namespace memoryDB

/-- The tests of `dbwrite` for `len` octets, whose buffer is a part of the header or none. -/
def dbwrite (db : memoryDB) (pos : ℕ) (inHeader : Bool) (len : ℕ) (written : memoryDB) : Except Stop memoryDB :=
  if (pos < sizeof_dbHeader ∧ inHeader = false) ∨ db.h.eofPtr ≤ pos then .error Stop.BUDB_IO
  else if fileLimit < pos + len then .error .ubik
  else .ok written

/-- `dbread` of a block. -/
def dbread (db : memoryDB) (pos : ℕ) : Except Stop block :=
  if db.h.eofPtr ≤ pos then .error Stop.BUDB_IO else .ok (db.disk pos)

def put (db : memoryDB) (a : ℕ) (b : block) : memoryDB := { db with disk := Function.update db.disk a b }

/-- `dbwrite` of a block. -/
def dbwrite_block (db : memoryDB) (a : ℕ) (b : block) : Except Stop memoryDB :=
  db.dbwrite a false BLOCKSIZE (db.put a b)

/-- `dbwrite` of the header of a block. -/
def dbwrite_blockHeader (db : memoryDB) (a : ℕ) (bh : blockHeader) : Except Stop memoryDB :=
  db.dbwrite a false sizeof_blockHeader (db.put a { db.disk a with h := bh })

/-- `dbwrite` of the `next` field of a block, which lies four octets behind its address. -/
def dbwrite_next (db : memoryDB) (a next : ℕ) : Except Stop memoryDB :=
  db.dbwrite (a + 4) false 4 (db.put a { db.disk a with h := { (db.disk a).h with next := next } })

/-- `set_header_word`, of a word that `db` holds already. -/
def set_header_word (db : memoryDB) (pos : ℕ) : Except Stop memoryDB := db.dbwrite pos true 4 db

/-- Where `eofPtr`, `freePtrs[0]`, a lock and a text lie in the header. -/
def eofPtr_pos : ℕ := 64

def freePtr_pos : ℕ := 16

def textLocks_pos (lockName : ℕ) : ℕ := 308 + lockName * sizeof_db_lockT

def textBlock_pos (textType : ℕ) : ℕ := 644 + textType * sizeof_textBlock

def setEofPtr (db : memoryDB) (eofPtr : ℕ) : memoryDB := { db with h := { db.h with eofPtr := eofPtr } }

def setFreePtr (db : memoryDB) (freePtr : ℕ) : memoryDB := { db with h := { db.h with freePtr := freePtr } }

/-- `AllocBlock`: a cleared block and its address. -/
def AllocBlock (db : memoryDB) : Except Stop (memoryDB × block × ℕ) :=
  if db.h.freePtr = 0 then do
    -- the database is extended
    let db' ← (db.setEofPtr (db.h.eofPtr + BLOCKSIZE)).set_header_word eofPtr_pos
    let db' ← db'.dbwrite_block db.h.eofPtr block.zero
    .ok (db', block.zero, db.h.eofPtr)
  else do
    let b ← db.dbread db.h.freePtr
    let db' ← (db.setFreePtr b.h.next).set_header_word freePtr_pos
    let db' ← db'.dbwrite_block db.h.freePtr block.zero
    .ok (db', block.zero, db.h.freePtr)

def BlockBase (a : ℕ) : ℕ := (a - sizeof_dbHeader) / BLOCKSIZE * BLOCKSIZE + sizeof_dbHeader

def FreeBlock (db : memoryDB) (a : ℕ) : Except Stop memoryDB :=
  if a ≠ BlockBase a then .error .panicked
  else do
    let db' ← (db.setFreePtr a).set_header_word freePtr_pos
    db'.dbwrite_blockHeader a ⟨.free_BLOCK, db.h.freePtr⟩

/-- `freeOldBlockChain`, with at most `fuel` blocks. -/
def freeOldBlockChain : ℕ → memoryDB → ℕ → Except Stop memoryDB
  | 0, db, diskAddr => if diskAddr = 0 then .ok db else .error .endless
  | fuel + 1, db, diskAddr =>
    if diskAddr = 0 then .ok db
    else do
      let b ← db.dbread diskAddr
      let db' ← db.FreeBlock diskAddr
      freeOldBlockChain fuel db' b.h.next

end memoryDB

def memoryDB.next (db : memoryDB) (a : ℕ) : ℕ := (db.disk a).h.next

/-- What a block is in use for. -/
inductive Use where
  | free
  | text (textType : ℕ)
  | newText (textType : ℕ)
  | other
  deriving DecidableEq

/-- The address of a block of a database with this `eofPtr`. -/
structure IsBlock (eofPtr a : ℕ) : Prop where
  aligned : ∃ k, a = sizeof_dbHeader + k * BLOCKSIZE
  inside : a + BLOCKSIZE ≤ eofPtr

/-- The blocks of the database are each in use for one thing at most, and the unused ones are chained. -/
structure Pool (db : memoryDB) (blocks : Use → List ℕ) : Prop where
  apart : Apart blocks
  isBlock : ∀ u, ∀ a ∈ blocks u, IsBlock db.h.eofPtr a
  aligned : ∃ k, db.h.eofPtr = sizeof_dbHeader + k * BLOCKSIZE
  limit : db.h.eofPtr ≤ fileLimit
  free : Chained db.next 0 db.h.freePtr (blocks .free)

end dce.bak
