import Dce.Bak.Database

open lib

namespace dce.bak

def db_lockT.unlocked : db_lockT := ⟨0, 0, 0, 0⟩

namespace memoryDB

def setTextLock (db : memoryDB) (lockName : ℕ) (lock : db_lockT) : memoryDB :=
  { db with h := { db.h with textLocks := Function.update db.h.textLocks lockName lock } }

def writeTextLock (db : memoryDB) (lockName : ℕ) (lock : db_lockT) : Except Stop memoryDB :=
  (db.setTextLock lockName lock).dbwrite (textLocks_pos lockName) true sizeof_db_lockT (db.setTextLock lockName lock)

/-- The same where the answer of `dbwrite` is ignored: a lock that is not written is read in again by the next call. -/
def tryWriteTextLock (db : memoryDB) (lockName : ℕ) (lock : db_lockT) : memoryDB :=
  match db.writeTextLock lockName lock with
  | .ok db' => db'
  | .error _ => db

end memoryDB

/-- The handle of a lock: its address, where the locks lie at `textLocks` in the memory of the server. -/
def lockHandle (textLocks lockName : ℕ) : ℕ := textLocks + lockName * sizeof_db_lockT

/-- `checkLockHandle`: the lock that a handle is the address of. -/
def checkLockHandle (textLocks handle : ℕ) : Option ℕ :=
  (List.range TB_NUM).find? fun lockName => lockHandle textLocks lockName = handle

def BUDB_FreeAllLocks (db : memoryDB) (callPermitted : Bool) (instanceId : u_long) : Except Stop memoryDB :=
  if callPermitted = false then .error .BUDB_NOTPERMITTED
  else .ok <| (List.range TB_NUM).foldl (fun db lockName =>
    if (db.h.textLocks lockName).lockState = 1 ∧ (db.h.textLocks lockName).instanceId = instanceId then
      db.tryWriteTextLock lockName .unlocked
    else db) db

def BUDB_FreeLock (textLocks : ℕ) (db : memoryDB) (callPermitted : Bool) (handle : ℕ) : Except Stop memoryDB :=
  if callPermitted = false then .error .BUDB_NOTPERMITTED
  else match checkLockHandle textLocks handle with
    | none => .error .BUDB_BADARGUMENT
    | some lockName => .ok (db.tryWriteTextLock lockName .unlocked)

/-- `BUDB_GetLock`, which reads the clock as `tv_sec` before its transaction starts. -/
def BUDB_GetLock (textLocks : ℕ) (db : memoryDB) (callPermitted : Bool) (tv_sec instanceId : u_long) (lockName : ℤ)
    (expiration : u_long) : Except Stop (memoryDB × ℕ) :=
  if callPermitted = false then .error .BUDB_NOTPERMITTED
  else if lockName < 0 ∨ (TB_NUM : ℤ) ≤ lockName then .error .BUDB_BADARGUMENT
  else
    let lock := db.h.textLocks lockName.toNat
    if lock.lockState ≠ 0 ∧ tv_sec < lock.expires then
      if lock.instanceId = instanceId then .error .BUDB_SELFLOCKED else .error .BUDB_LOCKED
    else do
      let db' ← db.writeTextLock lockName.toNat ⟨1, tv_sec, tv_sec + expiration, instanceId⟩
      .ok (db', lockHandle textLocks lockName.toNat)

/-- The octets that `charListT_val` has room for. -/
def BUDB_MAX_CHAR_LIST : ℕ := 1024

def BUDB_TEXT_COMPLETE : u_long := 1

namespace memoryDB

def setTextBlock (db : memoryDB) (textType : ℕ) (tb : textBlock) : memoryDB :=
  { db with h := { db.h with textBlock := Function.update db.h.textBlock textType tb } }

/-- `dbwrite` of a text of the header. -/
def writeTextBlock (db : memoryDB) (textType : ℕ) : Except Stop memoryDB :=
  db.dbwrite (textBlock_pos textType) true sizeof_textBlock db

/-- A number of turns that is enough to follow any chain without circles: a block has more than one octet. -/
def turns (db : memoryDB) : ℕ := db.h.eofPtr

/-- The block that a walk of `nblocks` steps ends at, each of which reads the block it leaves. -/
def skipBlocks (db : memoryDB) : ℕ → ℕ → Except Stop ℕ
  | 0, lastBlockAddr => .ok lastBlockAddr
  | nblocks + 1, lastBlockAddr => do
    let b ← db.dbread lastBlockAddr
    skipBlocks db nblocks b.h.next

end memoryDB

open memoryDB

/-- The loop of `BUDB_GetText` that collects `transferSize` octets, with at most `fuel` blocks. -/
def collect (db : memoryDB) : ℕ → ℕ → ℕ → ℕ → Except Stop (List Byte)
  | 0, _, _, _ => .error .endless
  | fuel + 1, lastBlockAddr, offset, transferSize =>
    if transferSize = 0 then .ok []
    else do
      let b ← db.dbread lastBlockAddr
      let blockOffset := offset % BLOCK_DATA_SIZE
      let chunkSize := min (BLOCK_DATA_SIZE - blockOffset) transferSize
      let rest ← collect db fuel b.h.next (offset + chunkSize) (transferSize - chunkSize)
      .ok (b.a.read blockOffset chunkSize ++ rest)

/-- What `BUDB_GetText` returns. -/
structure Reply where
  charList : List Byte
  nextOffset : ℤ
  deriving DecidableEq

def BUDB_GetText (textLocks : ℕ) (db : memoryDB) (callPermitted : Bool) (handle : ℕ) (textType maxLength offset : ℤ) :
    Except Stop Reply :=
  if callPermitted = false then .error .BUDB_NOTPERMITTED
  else if offset < 0 ∨ textType < 0 ∨ (TB_NUM : ℤ) ≤ textType then .error .BUDB_BADARGUMENT
  else if checkLockHandle textLocks handle = none then .error .BUDB_NOTLOCKED
  else
    let tb := db.h.textBlock textType.toNat
    if 0 < tb.size ∧ (tb.size : ℤ) ≤ offset then .error .BUDB_BADARGUMENT
    else
      let transferSize := min (tb.size - offset) maxLength
      -- `bzero` and the copies below fill this many octets of `charListT_val`
      if transferSize < 0 ∨ (BUDB_MAX_CHAR_LIST : ℤ) < transferSize then .error .overrun
      else do
        let lastBlockAddr ← db.skipBlocks (offset.toNat / BLOCK_DATA_SIZE) tb.textAddr
        let charList ← collect db (transferSize.toNat + 1) lastBlockAddr offset.toNat transferSize.toNat
        let nextOffset := offset + transferSize
        .ok ⟨charList, if nextOffset = tb.size then -1 else nextOffset⟩

/-- The block where `BUDB_SaveText` starts a text: a new one, after those of a text that was not completed are freed. -/
def startText (db : memoryDB) (textType : ℕ) : Except Stop (memoryDB × block × ℕ) := do
  let db ← freeOldBlockChain db.turns db (db.h.textBlock textType).newTextAddr
  let (db, diskBlock, diskBlockAddr) ← db.AllocBlock
  let db := db.setTextBlock textType { db.h.textBlock textType with newsize := 0, newTextAddr := diskBlockAddr }
  let db ← db.writeTextBlock textType
  .ok (db, { diskBlock with h := { diskBlock.h with type := .text_BLOCK } }, diskBlockAddr)

/-- The block where `BUDB_SaveText` goes on with a text. -/
def continueText (db : memoryDB) (textType offset : ℕ) : Except Stop (memoryDB × block × ℕ) :=
  let tb := db.h.textBlock textType
  if offset ≠ tb.newsize then .error .BUDB_BADARGUMENT
  else if tb.newTextAddr = 0 then .error .BUDB_BADARGUMENT
  else do
    let diskBlockAddr ← db.skipBlocks (offset / BLOCK_DATA_SIZE) tb.newTextAddr
    let diskBlock ← db.dbread diskBlockAddr
    .ok (db, diskBlock, diskBlockAddr)

/-- The loop of `BUDB_SaveText`, with at most `fuel` blocks: `diskBlock` is the copy of the last block of the chain. -/
def saveLoop (textType : ℕ) : ℕ → memoryDB → block → ℕ → ℕ → List Byte → Except Stop memoryDB
  | 0, _, _, _, _, _ => .error .endless
  | fuel + 1, db, diskBlock, diskBlockAddr, offset, text =>
    let chunkSize := min (BLOCK_DATA_SIZE - offset % BLOCK_DATA_SIZE) text.length
    let tb := db.h.textBlock textType
    let db := db.setTextBlock textType { tb with newsize := tb.newsize + chunkSize }
    let diskBlock := { diskBlock with a := diskBlock.a.write (offset % BLOCK_DATA_SIZE) (text.take chunkSize) }
    if 0 < text.length - chunkSize then do
      let db ← db.dbwrite_block diskBlockAddr diskBlock
      let (db, newBlock, newBlockAddr) ← db.AllocBlock
      let db ← db.dbwrite_next diskBlockAddr newBlockAddr
      saveLoop textType fuel db { newBlock with h := { newBlock.h with type := .text_BLOCK } } newBlockAddr
        (offset + chunkSize) (text.drop chunkSize)
    else db.dbwrite_block diskBlockAddr diskBlock

/-- The end of a text: it replaces the previous one, whose blocks are freed. -/
def completeText (db : memoryDB) (textType : ℕ) : Except Stop memoryDB := do
  let db ← freeOldBlockChain db.turns db (db.h.textBlock textType).textAddr
  let tb := db.h.textBlock textType
  .ok (db.setTextBlock textType ⟨tb.version + 1, tb.newsize, tb.newTextAddr, 0, 0⟩)

def BUDB_SaveText (textLocks : ℕ) (db : memoryDB) (callPermitted : Bool) (handle : ℕ) (textType offset : ℤ) (flags : u_long)
    (charList : List Byte) : Except Stop memoryDB :=
  if callPermitted = false then .error .BUDB_NOTPERMITTED
  else if BLOCK_DATA_SIZE < charList.length ∨ offset < 0 then .error .BUDB_BADARGUMENT
  else if checkLockHandle textLocks handle = none then .error .BUDB_NOTLOCKED
  else if textType < 0 ∨ (TB_NUM : ℤ) ≤ textType then .error .BUDB_BADARGUMENT
  else do
    let (db, diskBlock, diskBlockAddr) ←
      if offset = 0 then startText db textType.toNat else continueText db textType.toNat offset.toNat
    let db ← saveLoop textType.toNat (charList.length + 1) db diskBlock diskBlockAddr offset.toNat charList
    let db ← if flags &&& BUDB_TEXT_COMPLETE ≠ 0 then completeText db textType.toNat else .ok db
    db.writeTextBlock textType.toNat

end dce.bak
