import Dce.Lib.System
import Dce.Ubik.Log

open lib

namespace dce.ubik

/-- The type of a lock as the caller gives it. -/
inductive LockType where
  | LOCKREAD
  | LOCKWRITE
  | invalid
  deriving DecidableEq

/-- `struct ubik_lock`. The length is 1. -/
structure Lock where
  start : Long
  type : LockType
  deriving DecidableEq

/-- `ubik_currentTrans`, always a write transaction. The serial number stands for
its address; `TRDONE` is set once it is committed or aborted. -/
structure RemoteTrans where
  serial : ℕ
  tid : Tid
  done : Bool
  updates : List Update
  activeLocks : List Lock

/-- An entry of `SUBIKDISK_BulkUpdate`. A lock's file number is not used. -/
inductive BulkOp where
  | UBULK_BEGIN
  | UBULK_LOCK (pos len : Long) (type : LockType)
  | UBULK_UPDATE (update : Update)
  | unknown

/-- The calls that the sync site makes for a write transaction. -/
inductive RemoteOp where
  | Begin
  | Commit
  | Abort
  | ReleaseLocks
  | Lock (pos len : Long) (type : LockType)
  /-- `SUBIKDISK_Write` and `SUBIKDISK_Truncate`. -/
  | Update (update : Update)
  | BulkUpdate (bulk : List BulkOp)

structure RemoteCall where
  atid : Tid
  op : RemoteOp

/-- Return codes. -/
inductive UCode where
  | success
  | USYNC
  | UDONE
  | UTWOENDS
  | UBADLOCK
  | UBADBULK
  | EINVAL
  | UIOERROR
  deriving DecidableEq, Repr

/-- A call that has given up the ubik lock, and what it does when it has it again. -/
inductive Waiting where
  /-- In `ubik_versionLock` at the start of the call. -/
  | versionLock (call : RemoteCall)
  /-- In `ubik_versionLock` after the `UBULK_BEGIN` of a bulk update. -/
  | bulkRest (atid : Tid) (bulk : List BulkOp)
  /-- Asleep in `ulock_SetLock` for the transaction `atrans`. -/
  | lockWait (atid : Tid) (atrans : ℕ) (lock : Lock) (bulk : List BulkOp)

/-- Where a transaction is ended. -/
inductive EndReason where
  | CheckTid
  | Begin
  | Abort
  | ReleaseLocks
  deriving DecidableEq

/-- What a call does to a transaction. -/
inductive Effect where
  | begun
  | updated (update : Update)
  | locked
  | committed (updates : List Update)
  | ended (reason : EndReason)

/-- An effect of a call that carries `atid` on the transaction `target`. -/
structure Event where
  atid : Tid
  target : Tid
  effect : Effect

/-- A server that is not the sync site. The trace has the latest event first; the
locks of local read transactions come and go. -/
structure Replica where
  ubik_currentTrans : Option RemoteTrans
  serials : ℕ
  readLocks : List Lock
  waiting : List Waiting
  replies : List (Tid × UCode)
  trace : List Event

/-- `udisk_end` of the remote transaction, if there is one. -/
def udisk_endRemote (s : Replica) (atid : Tid) (reason : EndReason) : Replica :=
  match s.ubik_currentTrans with
  | none => s
  | some tt => { s with ubik_currentTrans := none, trace := ⟨atid, tt.tid, .ended reason⟩ :: s.trace }

/-- `urecovery_CheckTid` for a call. -/
def urecovery_CheckTidRemote (s : Replica) (atid : Tid) : Replica :=
  match s.ubik_currentTrans with
  | none => s
  | some tt => if tt.tid.endedBy atid then udisk_endRemote s atid .CheckTid else s

/-- The part of `SUBIKDISK_Begin` under the locks. Of the disk calls that follow,
the first `io` succeed; `udisk_begin` makes one of them. -/
def remoteBegin (s : Replica) (atid : Tid) (io : ℕ) : Replica × UCode :=
  let s := udisk_endRemote (urecovery_CheckTidRemote s atid) atid .Begin
  if io = 0 then (s, .UIOERROR)
  else
    ({ s with
        ubik_currentTrans := some ⟨s.serials, atid, false, [], []⟩
        serials := s.serials + 1
        trace := ⟨atid, atid, .begun⟩ :: s.trace },
      .success)

/-- `udisk_commit` of the remote transaction. -/
def remoteCommit (s : Replica) (tt : RemoteTrans) (atid : Tid) (io : ℕ) : Replica × UCode :=
  if tt.done then (s, .UTWOENDS)
  else
    let s := { s with ubik_currentTrans := some { tt with done := true } }
    if io = 0 then (s, .UIOERROR)
    else ({ s with trace := ⟨atid, tt.tid, .committed tt.updates⟩ :: s.trace }, .success)

/-- How `ulock_SetLock` finds a lock. -/
inductive LockState where
  | free
  | taken
  | invalid
  deriving DecidableEq

/-- The search of `ulock_SetLock` through the locks of all transactions. -/
def searchLocks (lock : Lock) : List Lock → LockState
  | [] => .free
  | tl :: rest =>
    if tl.start = lock.start then
      match lock.type with
      | .LOCKREAD => if tl.type = .LOCKWRITE then .taken else searchLocks lock rest
      | .LOCKWRITE => .taken
      | .invalid => .invalid
    else searchLocks lock rest

def Replica.allLocks (s : Replica) : List Lock :=
  (match s.ubik_currentTrans with
    | none => []
    | some tt => tt.activeLocks) ++ s.readLocks

/-- `ulock_SetLock` adds a lock to the transaction it was called for. If this one is
gone, the lock goes into memory that is no longer in use. -/
def addLock (s : Replica) (atid : Tid) (atrans : ℕ) (lock : Lock) : Replica :=
  match s.ubik_currentTrans with
  | none => s
  | some tt =>
    if tt.serial = atrans then
      { s with
        ubik_currentTrans := some { tt with activeLocks := lock :: tt.activeLocks }
        trace := ⟨atid, tt.tid, .locked⟩ :: s.trace }
    else s

/-- `udisk_write` and `udisk_truncate` on the remote transaction. A truncation that
cannot be logged is done at commit all the same. -/
def addUpdate (s : Replica) (tt : RemoteTrans) (atid : Tid) (update : Update) : Replica :=
  { s with
    ubik_currentTrans := some { tt with updates := tt.updates ++ [update] }
    trace := ⟨atid, tt.tid, .updated update⟩ :: s.trace }

/-- How a call goes on. -/
inductive Outcome where
  | returns (code : UCode)
  | sleeps (at_ : Waiting)

/-- The loop of `SUBIKDISK_BulkUpdate`. The other update calls are like a bulk of
one. Without a transaction the loop follows a null pointer, so there is no result. -/
def bulkLoop (s : Replica) (atid : Tid) (io : ℕ) : List BulkOp → Option (Replica × Outcome)
  | [] => some (s, .returns .success)
  | op :: bulk =>
    match s.ubik_currentTrans with
    | none => none
    | some tt =>
      match op with
      | .UBULK_LOCK pos len type =>
        if tt.done then some (s, .returns .UDONE)
        else if len ≠ 1 then some (s, .returns .EINVAL)
        else
          match searchLocks ⟨pos, type⟩ s.allLocks with
          | .free => bulkLoop (addLock s atid tt.serial ⟨pos, type⟩) atid io bulk
          | .taken => some (s, .sleeps (.lockWait atid tt.serial ⟨pos, type⟩ bulk))
          | .invalid => some (s, .returns .EINVAL)
      | .UBULK_UPDATE update =>
        if tt.done then some (s, .returns .UDONE)
        else
          match io, update with
          | 0, .write _ _ _ => some (s, .returns .UIOERROR)
          | 0, .truncate _ _ => some (addUpdate s tt atid update, .returns .UIOERROR)
          | io + 1, _ => bulkLoop (addUpdate s tt atid update) atid io bulk
      | .UBULK_BEGIN => some (s, .returns .UBADBULK)
      | .unknown => some (s, .returns .UBADBULK)

/-- The call starts a transaction before anything else. -/
def RemoteOp.begins : RemoteOp → Bool
  | .Begin => true
  | .BulkUpdate (.UBULK_BEGIN :: _) => true
  | _ => false

/-- The first check of a call, before it waits for the version lock: the code it
returns with, if it does. -/
def firstCheck (s : Replica) (call : RemoteCall) : Option UCode :=
  if call.op.begins then none
  else
    match s.ubik_currentTrans with
    | none => some .USYNC
    | some _ =>
      match call.op with
      | .Lock _ len _ => if len ≠ 1 then some .UBADLOCK else none
      | _ => none

/-- A call that finds the remote transaction `tt` behind `urecovery_CheckTid`. -/
def runChecked (s : Replica) (tt : RemoteTrans) (atid : Tid) (io : ℕ) : RemoteOp → Option (Replica × Outcome)
  | .Commit =>
    let (s, code) := remoteCommit s tt atid io
    some (s, .returns code)
  | .Abort => some (udisk_endRemote s atid .Abort, .returns (if tt.done then .UTWOENDS else .success))
  | .ReleaseLocks => some (udisk_endRemote s atid .ReleaseLocks, .returns .success)
  | .Lock pos len type => bulkLoop s atid io [.UBULK_LOCK pos len type]
  | .Update update => bulkLoop s atid io [.UBULK_UPDATE update]
  | .BulkUpdate bulk => bulkLoop s atid io bulk
  | .Begin => none

def runCall (s : Replica) (call : RemoteCall) (io : ℕ) : Option (Replica × Outcome) :=
  match call.op with
  | .Begin =>
    let (s, code) := remoteBegin s call.atid io
    some (s, .returns code)
  | .BulkUpdate (.UBULK_BEGIN :: bulk) =>
    let (s, _) := remoteBegin s call.atid io
    match s.ubik_currentTrans with
    | none => some (s, .returns .USYNC)
    | some _ => some (s, .sleeps (.bulkRest call.atid bulk))
  | op =>
    let s := urecovery_CheckTidRemote s call.atid
    match s.ubik_currentTrans with
    | none => some (s, .returns .USYNC)
    | some tt => runChecked s tt call.atid io op

def resume (s : Replica) (io : ℕ) : Waiting → Option (Replica × Outcome)
  | .versionLock call => runCall s call io
  | .bulkRest atid bulk => bulkLoop s atid io bulk
  | .lockWait atid atrans lock bulk =>
    match searchLocks lock s.allLocks with
    | .free => bulkLoop (addLock s atid atrans lock) atid io bulk
    | .taken => some (s, .sleeps (.lockWait atid atrans lock bulk))
    | .invalid => some (s, .returns .EINVAL)

def Waiting.atid : Waiting → Tid
  | .versionLock call => call.atid
  | .bulkRest atid _ => atid
  | .lockWait atid _ _ _ => atid

inductive ReplicaStep where
  /-- A call arrives, however late. -/
  | arrive (call : RemoteCall)
  /-- The `i`th waiting call goes on; the next `io` disk calls succeed. -/
  | resume (i : ℕ) (io : ℕ)
  /-- Local read transactions set and release locks. -/
  | readers (locks : List Lock)
  /-- A yes vote for a beacon runs `urecovery_CheckTid`. -/
  | beacon (atid : Tid)

def Replica.step (s : Replica) : ReplicaStep → Option Replica
  | .arrive call =>
    match firstCheck s call with
    | some code => some { s with replies := (call.atid, code) :: s.replies }
    | none => some { s with waiting := .versionLock call :: s.waiting }
  | .resume i io =>
    match s.waiting[i]? with
    | none => none
    | some w =>
      match dce.ubik.resume { s with waiting := s.waiting.eraseIdx i } io w with
      | none => none
      | some (s, .returns code) => some { s with replies := (w.atid, code) :: s.replies }
      | some (s, .sleeps w') => some { s with waiting := w' :: s.waiting }
  | .readers locks => some { s with readLocks := locks }
  | .beacon atid =>
    match s.ubik_currentTrans with
    | none => some s
    | some tt => some (if tt.tid.endedBy atid then { s with ubik_currentTrans := none } else s)

def replica : System Replica ReplicaStep where
  init s := s.ubik_currentTrans = none ∧ s.waiting = [] ∧ s.trace = []
  step := Replica.step

end dce.ubik
