import Dce.Lib.Runs
import Dce.Ubik.Remote.Calls

open lib

namespace dce.ubik.remote

/-- The calls that a manager operation makes. -/
inductive Call where
  | ubik_CheckAuth
  | ubik_CheckBadHost
  /-- A look at `ubik_currentTrans`: whether there is a transaction. -/
  | currentTrans
  /-- A look at its type: whether it is a write transaction. -/
  | writeTrans
  | urecovery_CheckTid
  | udisk_begin
  | udisk_commit
  | udisk_abort
  | udisk_end
  | udisk_write
  | udisk_truncate
  /-- Whether `ulock_SetLock` finds the transaction done. -/
  | lockDone
  /-- How often `ulock_SetLock` sleeps before it gets the lock. -/
  | lockSleeps
  | ubeacon_AmSyncSite
  | stat
  /-- The size that `stat` finds. -/
  | size
  | read
  | write
  | getlabel
  | setlabel
  | push
  | pull
  /-- The number of bytes that a `pull` brings. -/
  | pulled
  /-- How many more times a pipe can be pulled before it is drained. -/
  | drains
  deriving DecidableEq

/-- What the two locks look like to the operation that runs: which of them it holds, and whether it has released one that it
did not hold or waited for one that it held. -/
structure Locks where
  ubik_llock : Bool
  versionLock : Bool
  misused : Bool
  deriving DecidableEq, Repr

/-- The locks and the outcomes of the calls, for each call by how often it was made. An exception in a `TRY` block is an outcome
that is not 0. -/
structure World where
  answers : Call → ℕ → ℤ
  asked : Call → ℕ
  locks : Locks

abbrev Op := StateM World

def outcome (call : Call) : Op ℤ := fun w =>
  (w.answers call (w.asked call), { w with asked := Function.update w.asked call (w.asked call + 1) })

section Locking

/-- `lock_ObtainWrite (&ubik_llock)`. -/
def ubik_hold : Op Unit := fun w =>
  ((), { w with locks := if w.locks.ubik_llock then { w.locks with misused := true } else { w.locks with ubik_llock := true } })

/-- `lock_ReleaseWrite (&ubik_llock)`. -/
def ubik_rele : Op Unit := fun w =>
  ((), { w with locks := if w.locks.ubik_llock then { w.locks with ubik_llock := false } else { w.locks with misused := true } })

/-- `lock_ObtainWrite (&dbase->versionLock)`. -/
def obtainVersionLock : Op Unit := fun w =>
  ((), { w with locks := if w.locks.versionLock then { w.locks with misused := true } else { w.locks with versionLock := true } })

def ubik_versionLock : Op Unit := do
  ubik_rele
  obtainVersionLock
  ubik_hold

def ubik_versionLockBoth : Op Unit := do
  obtainVersionLock
  ubik_hold

def ubik_versionUnlock : Op Unit := fun w =>
  ((), { w with locks := if w.locks.versionLock then { w.locks with versionLock := false } else { w.locks with misused := true } })

/-- The sleeps of `ulock_SetLock`; `osi_SleepW` releases the low-level lock. -/
def sleeps : ℕ → Op Unit
  | 0 => pure ()
  | n + 1 => do
    ubik_versionUnlock
    ubik_rele
    ubik_versionLockBoth
    sleeps n

/-- `ulock_SetLock` that waits. -/
def ulock_SetLock (alen : ℤ) : Op ℤ := do
  if (← outcome .lockDone) ≠ 0 then return 1
  if alen ≠ 1 then return 2
  sleeps (← outcome .lockSleeps).toNat
  return 0

end Locking

section Operations

/-- The beginning that all operations but two share. -/
def checked (body : Op ℤ) : Op ℤ := do
  let code ← outcome .ubik_CheckAuth
  if code ≠ 0 then return code
  ubik_hold
  let code ← outcome .ubik_CheckBadHost
  -- the low-level lock is kept here
  if code ≠ 0 then return code
  body

def SUBIKDISK_GetServerInterfaces : Op ℤ := return 0

def beginTrans : Op ℤ := do
  ubik_versionLock
  let _ ← outcome .urecovery_CheckTid
  if (← outcome .currentTrans) ≠ 0 then
    let _ ← outcome .udisk_end
  let code ← outcome .udisk_begin
  ubik_versionUnlock
  return code

def SUBIKDISK_Begin : Op ℤ := checked do
  let code ← beginTrans
  ubik_rele
  return code

/-- The release of both locks at the end of an operation. -/
def exit (code : ℤ) : Op ℤ := do
  ubik_versionUnlock
  ubik_rele
  return code

def exitLow (code : ℤ) : Op ℤ := do
  ubik_rele
  return code

/-- The operations that test the type of the transaction before they take the version lock. -/
def typedFirst (test : ℤ) (body : Op ℤ) : Op ℤ := checked do
  if (← outcome .currentTrans) = 0 then exitLow 1
  else if (← outcome .writeTrans) = 0 then exitLow 2
  else if test ≠ 0 then exitLow test
  else do
    ubik_versionLock
    let _ ← outcome .urecovery_CheckTid
    if (← outcome .currentTrans) = 0 then exit 1
    else do
      let code ← body
      exit code

def SUBIKDISK_Commit : Op ℤ := typedFirst 0 (outcome .udisk_commit)

def SUBIKDISK_ReleaseLocks : Op ℤ := typedFirst 0 (outcome .udisk_end)

def SUBIKDISK_Lock (alen : ℤ) : Op ℤ := typedFirst (if alen ≠ 1 then 3 else 0) (ulock_SetLock alen)

def SUBIKDISK_Write : Op ℤ := typedFirst 0 (outcome .udisk_write)

/-- The operations that test the type of the transaction once they have the version lock. -/
def typedLast (body : Op ℤ) : Op ℤ := checked do
  if (← outcome .currentTrans) = 0 then exitLow 1
  else do
    ubik_versionLock
    let _ ← outcome .urecovery_CheckTid
    if (← outcome .currentTrans) = 0 then exit 1
    else if (← outcome .writeTrans) = 0 then exit 2
    else do
      let code ← body
      exit code

def SUBIKDISK_Abort : Op ℤ := typedLast do
  let code ← outcome .udisk_abort
  let _ ← outcome .udisk_end
  return code

def SUBIKDISK_Truncate : Op ℤ := typedLast (outcome .udisk_truncate)

def bulkEntry : BulkOp → Op ℤ
  | .UBULK_LOCK _ len _ => ulock_SetLock len.toInt
  | .UBULK_UPDATE (.truncate _ _) => outcome .udisk_truncate
  | .UBULK_UPDATE (.write _ _ _) => outcome .udisk_write
  | _ => return 4

def bulkEntries : List BulkOp → Op ℤ
  | [] => return 0
  | entry :: rest => do
    let code ← bulkEntry entry
    if code ≠ 0 then return code
    bulkEntries rest

/-- The entries that are left once the transaction is there. -/
def bulkRest (begun : Bool) (abulk : List BulkOp) : Op ℤ := do
  if (← outcome .currentTrans) = 0 then exitLow 1
  else if (← outcome .writeTrans) = 0 then exitLow 2
  else do
    ubik_versionLock
    if begun then do
      let code ← bulkEntries abulk
      exit code
    else do
      let _ ← outcome .urecovery_CheckTid
      if (← outcome .currentTrans) = 0 then exit 1
      else do
        let code ← bulkEntries abulk
        exit code

def SUBIKDISK_BulkUpdate (abulk : List BulkOp) : Op ℤ := checked do
  match abulk with
  | .UBULK_BEGIN :: rest => do
    let _ ← beginTrans
    bulkRest true rest
  | abulk => bulkRest false abulk

def SUBIKDISK_GetVersion : Op ℤ := checked do
  if (← outcome .ubeacon_AmSyncSite) ≠ 0 then exitLow 5
  else do
    ubik_versionLock
    let _ ← outcome .getlabel
    ubik_versionUnlock
    ubik_rele
    return 0

/-- `sizeof (tbuffer)`. -/
def bufferSize : ℕ := 256

/-- A call of the pipe's `push`, without the low-level lock. -/
def push : Op ℤ := do
  ubik_rele
  let excCode ← outcome .push
  ubik_hold
  return excCode

/-- The loop of `SUBIKDISK_GetFile`: the code of a read and that of a push. The rounds are no more than the bytes. -/
def pushFile : ℕ → ℕ → Op (ℤ × ℤ)
  | 0, _ => return (0, 0)
  | rounds + 1, length =>
    if length = 0 then return (0, 0)
    else do
      let code ← outcome .read
      if code ≠ 0 then return (code, 0)
      let excCode ← push
      if excCode ≠ 0 then return (0, excCode)
      pushFile rounds (length - min bufferSize length)

def SUBIKDISK_GetFile : Op ℤ := checked do
  if (← outcome .ubeacon_AmSyncSite) ≠ 0 then exitLow 5
  else do
    ubik_versionLock
    let code ← outcome .stat
    if code ≠ 0 then exit code
    else do
      let length := (← outcome .size).toNat
      let codes ← pushFile length length
      let excCode ← if codes.2 = 0 then push else pure codes.2
      if codes.1 ≠ 0 ∨ excCode ≠ 0 then exit (if codes.1 ≠ 0 then codes.1 else excCode)
      else do
        let code ← outcome .getlabel
        exit code

def drain : ℕ → Op ℤ
  | 0 => return 0
  | n + 1 => do
    let st ← outcome .pull
    if st ≠ 0 then return st
    drain n

/-- A call of the pipe's `pull`, without the low-level lock. -/
def pull : Op (ℤ × ℕ) := do
  ubik_rele
  let code ← outcome .pull
  let tlen ← outcome .pulled
  ubik_hold
  return (code, tlen.toNat)

def drainPipe : Op Unit := do
  ubik_rele
  let _ ← drain ((← outcome .drains).toNat + 1)
  ubik_hold

/-- The loop of `SUBIKDISK_SendFile`: the code it returns with, if it returns. The rounds are no more than the bytes. -/
def pullFile : ℕ → ℤ → Op (Option ℤ)
  | 0, _ => return none
  | rounds + 1, length =>
    if length ≤ 0 then return none
    else do
      let pulled ← pull
      if pulled.1 ≠ 0 ∨ pulled.2 = 0 then do
        let code ← exit pulled.1
        return some (if pulled.2 = 0 then 0 else code)
      else do
        let code ← outcome .write
        if code ≠ 0 then do
          drainPipe
          let code ← exit code
          return some code
        else pullFile rounds (length - pulled.2)

def sendFileEnd : Op ℤ := do
  let pulled ← pull
  if pulled.1 ≠ 0 then exit pulled.1
  else if pulled.2 ≠ 0 then do
    drainPipe
    exit 6
  else do
    let code ← outcome .setlabel
    exit code

def SUBIKDISK_SendFile (length : ℤ) : Op ℤ := checked do
  if (← outcome .ubeacon_AmSyncSite) ≠ 0 then exitLow 5
  else do
    ubik_versionLock
    let _ ← outcome .setlabel
    match ← pullFile length.toNat length with
    | some code => return code
    | none => sendFileEnd

def SUBIKDISK_Probe : Op ℤ := do
  let rc ← outcome .ubik_CheckAuth
  if rc ≠ 0 then return rc
  ubik_hold
  let rc ← outcome .ubik_CheckBadHost
  ubik_rele
  return rc

end Operations

/-- The manager operations with the arguments their locking depends on. -/
inductive Operation where
  | GetServerInterfaces
  | Begin
  | Commit
  | ReleaseLocks
  | Abort
  | Lock (alen : ℤ)
  | Write
  | BulkUpdate (abulk : List BulkOp)
  | Truncate
  | GetVersion
  | GetFile
  | SendFile (length : ℤ)
  | Probe

def Operation.run : Operation → Op ℤ
  | .GetServerInterfaces => SUBIKDISK_GetServerInterfaces
  | .Begin => SUBIKDISK_Begin
  | .Commit => SUBIKDISK_Commit
  | .ReleaseLocks => SUBIKDISK_ReleaseLocks
  | .Abort => SUBIKDISK_Abort
  | .Lock alen => SUBIKDISK_Lock alen
  | .Write => SUBIKDISK_Write
  | .BulkUpdate abulk => SUBIKDISK_BulkUpdate abulk
  | .Truncate => SUBIKDISK_Truncate
  | .GetVersion => SUBIKDISK_GetVersion
  | .GetFile => SUBIKDISK_GetFile
  | .SendFile length => SUBIKDISK_SendFile length
  | .Probe => SUBIKDISK_Probe

section Balance

def Locks.none : Locks := ⟨false, false, false⟩

def Locks.low : Locks := ⟨true, false, false⟩

def Locks.version : Locks := ⟨false, true, false⟩

def Locks.both : Locks := ⟨true, true, false⟩

/-- A part of an operation leads from some locks to others. -/
abbrev Leads {α : Type} (before : Locks) (p : Op α) (after : Locks) : Prop := Passes World.locks before p after

variable {locks : Locks}

theorem outcome_leads (call : Call) : Leads locks (outcome call) locks := fun _ hw => hw

theorem ubik_hold_leads : Leads .none ubik_hold .low := fun w hw => by simp only [ubik_hold, hw]; rfl

theorem ubik_rele_leads : Leads .low ubik_rele .none := fun w hw => by simp only [ubik_rele, hw]; rfl

theorem ubik_rele_leads_version : Leads .both ubik_rele .version := fun w hw => by simp only [ubik_rele, hw]; rfl

theorem ubik_hold_leads_both : Leads .version ubik_hold .both := fun w hw => by simp only [ubik_hold, hw]; rfl

theorem ubik_versionLockBoth_leads : Leads .none ubik_versionLockBoth .both := by
  have hobtain : Leads .none obtainVersionLock .version := fun w hw => by
    simp only [obtainVersionLock, hw]
    rfl
  exact hobtain.bind fun _ => ubik_hold_leads_both

theorem ubik_versionLock_leads : Leads .low ubik_versionLock .both :=
  ubik_rele_leads.bind fun _ => ubik_versionLockBoth_leads

theorem ubik_versionUnlock_leads : Leads .both ubik_versionUnlock .low := fun w hw => by
  simp only [ubik_versionUnlock, hw]
  rfl

theorem sleeps_leads (n : ℕ) : Leads .both (sleeps n) .both := by
  induction n with
  | zero => exact .pure ()
  | succ n ih =>
    exact ubik_versionUnlock_leads.bind fun _ => ubik_rele_leads.bind fun _ => ubik_versionLockBoth_leads.bind fun _ => ih

theorem ulock_SetLock_leads (alen : ℤ) : Leads .both (ulock_SetLock alen) .both := by
  refine (outcome_leads .lockDone).bind fun _ => .ite (fun _ => .pure 1) fun _ => ?_
  refine .ite (fun _ => .pure 2) fun _ => ?_
  exact (outcome_leads .lockSleeps).bind fun _ => (sleeps_leads _).bind fun _ => .pure 0

theorem exit_leads (code : ℤ) : Leads .both (exit code) .none :=
  ubik_versionUnlock_leads.bind fun _ => ubik_rele_leads.bind fun _ => .pure code

theorem exitLow_leads (code : ℤ) : Leads .low (exitLow code) .none := ubik_rele_leads.bind fun _ => .pure code

end Balance

section Bodies

theorem beginTrans_leads : Leads .low beginTrans .low := by
  refine ubik_versionLock_leads.bind fun _ => (outcome_leads .urecovery_CheckTid).bind fun _ => ?_
  refine (outcome_leads .currentTrans).bind fun _ => ?_
  have hbegin : Leads .both (do let code ← outcome .udisk_begin; ubik_versionUnlock; return code) .low :=
    (outcome_leads .udisk_begin).bind fun code => ubik_versionUnlock_leads.bind fun _ => .pure code
  exact .ite (fun _ => (outcome_leads .udisk_end).bind fun _ => hbegin) fun _ => hbegin

theorem body_exit_leads {body : Op ℤ} (hbody : Leads .both body .both) :
    Leads .both (do let code ← body; exit code) .none := hbody.bind fun code => exit_leads code

theorem bulkEntry_leads (entry : BulkOp) : Leads .both (bulkEntry entry) .both := by
  unfold bulkEntry
  split
  · exact ulock_SetLock_leads _
  · exact outcome_leads .udisk_truncate
  · exact outcome_leads .udisk_write
  · exact .pure 4

theorem bulkEntries_leads (entries : List BulkOp) : Leads .both (bulkEntries entries) .both := by
  induction entries with
  | nil => exact .pure 0
  | cons entry rest ih => exact (bulkEntry_leads entry).bind fun code => .ite (fun _ => .pure code) fun _ => ih

theorem bulkRest_leads (begun : Bool) (abulk : List BulkOp) : Leads .low (bulkRest begun abulk) .none := by
  refine (outcome_leads .currentTrans).bind fun _ => .ite (fun _ => exitLow_leads 1) fun _ => ?_
  refine (outcome_leads .writeTrans).bind fun _ => .ite (fun _ => exitLow_leads 2) fun _ => ?_
  refine ubik_versionLock_leads.bind fun _ => ?_
  have hentries := body_exit_leads (bulkEntries_leads abulk)
  refine .ite (fun _ => hentries) fun _ => (outcome_leads .urecovery_CheckTid).bind fun _ => ?_
  exact (outcome_leads .currentTrans).bind fun _ => .ite (fun _ => exit_leads 1) fun _ => hentries

theorem push_leads : Leads .both push .both := by
  refine ubik_rele_leads_version.bind fun _ => (outcome_leads .push).bind fun excCode => ?_
  exact ubik_hold_leads_both.bind fun _ => .pure excCode

theorem pushFile_leads (rounds length : ℕ) : Leads .both (pushFile rounds length) .both := by
  induction rounds generalizing length with
  | zero => exact .pure (0, 0)
  | succ rounds ih =>
    refine .ite (fun _ => .pure (0, 0)) fun _ => (outcome_leads .read).bind fun code => ?_
    refine .ite (fun _ => .pure (code, 0)) fun _ => push_leads.bind fun excCode => ?_
    exact .ite (fun _ => .pure (0, excCode)) fun _ => ih _

theorem pull_leads : Leads .both pull .both := by
  refine ubik_rele_leads_version.bind fun _ => (outcome_leads .pull).bind fun code => ?_
  refine (outcome_leads .pulled).bind fun tlen => ?_
  exact ubik_hold_leads_both.bind fun _ => .pure (code, tlen.toNat)

theorem drain_leads {locks : Locks} (n : ℕ) : Leads locks (drain n) locks := by
  induction n with
  | zero => exact .pure 0
  | succ n ih => exact (outcome_leads .pull).bind fun st => .ite (fun _ => .pure st) fun _ => ih

theorem drainPipe_leads : Leads .both drainPipe .both := by
  refine ubik_rele_leads_version.bind fun _ => (outcome_leads .drains).bind fun _ => ?_
  exact (drain_leads _).bind fun _ => ubik_hold_leads_both

theorem pullFile_leads {α : Type} {after : Option ℤ → Op α} (rounds : ℕ) (length : ℤ)
    (hreturns : ∀ code, Leads .none (after (some code)) .none) (hrest : Leads .both (after none) .none) :
    Leads .both (pullFile rounds length >>= after) .none := by
  induction rounds generalizing length with
  | zero => exact hrest
  | succ rounds ih =>
    unfold pullFile
    by_cases hlength : length ≤ 0
    · rw [if_pos hlength]
      exact hrest
    · rw [if_neg hlength, bind_assoc]
      refine pull_leads.bind fun pulled => ?_
      by_cases hpulled : pulled.1 ≠ 0 ∨ pulled.2 = 0
      · rw [if_pos hpulled, bind_assoc]
        exact (exit_leads _).bind fun _ => hreturns _
      · rw [if_neg hpulled, bind_assoc]
        refine (outcome_leads .write).bind fun code => ?_
        by_cases hcode : code ≠ 0
        · rw [if_pos hcode, bind_assoc]
          refine drainPipe_leads.bind fun _ => ?_
          rw [bind_assoc]
          exact (exit_leads _).bind fun _ => hreturns _
        · rw [if_neg hcode]
          exact ih _

theorem sendFileEnd_leads : Leads .both sendFileEnd .none := by
  refine pull_leads.bind fun pulled => .ite (fun _ => exit_leads _) fun _ => ?_
  refine .ite (fun _ => drainPipe_leads.bind fun _ => exit_leads 6) fun _ => ?_
  exact body_exit_leads (outcome_leads .setlabel)

end Bodies

section Checked

/-- An operation that begins with the two tests, and whose rest gives back the low-level lock. -/
def Checked (op : Op ℤ) : Prop := ∃ body, op = checked body ∧ Leads .low body .none

theorem SUBIKDISK_Begin_checked : Checked SUBIKDISK_Begin :=
  ⟨_, rfl, beginTrans_leads.bind fun code => exitLow_leads code⟩

theorem typedFirst_checked (test : ℤ) {body : Op ℤ} (hbody : Leads .both body .both) : Checked (typedFirst test body) := by
  refine ⟨_, rfl, (outcome_leads .currentTrans).bind fun _ => .ite (fun _ => exitLow_leads 1) fun _ => ?_⟩
  refine (outcome_leads .writeTrans).bind fun _ => .ite (fun _ => exitLow_leads 2) fun _ => ?_
  refine .ite (fun _ => exitLow_leads test) fun _ => ?_
  refine ubik_versionLock_leads.bind fun _ => (outcome_leads .urecovery_CheckTid).bind fun _ => ?_
  exact (outcome_leads .currentTrans).bind fun _ => .ite (fun _ => exit_leads 1) fun _ => body_exit_leads hbody

theorem typedLast_checked {body : Op ℤ} (hbody : Leads .both body .both) : Checked (typedLast body) := by
  refine ⟨_, rfl, (outcome_leads .currentTrans).bind fun _ => .ite (fun _ => exitLow_leads 1) fun _ => ?_⟩
  refine ubik_versionLock_leads.bind fun _ => (outcome_leads .urecovery_CheckTid).bind fun _ => ?_
  refine (outcome_leads .currentTrans).bind fun _ => .ite (fun _ => exit_leads 1) fun _ => ?_
  exact (outcome_leads .writeTrans).bind fun _ => .ite (fun _ => exit_leads 2) fun _ => body_exit_leads hbody

theorem SUBIKDISK_Abort_checked : Checked SUBIKDISK_Abort := by
  apply typedLast_checked
  refine (outcome_leads .udisk_abort).bind fun code => ?_
  exact (outcome_leads .udisk_end).bind fun _ => .pure code

theorem SUBIKDISK_BulkUpdate_checked (abulk : List BulkOp) : Checked (SUBIKDISK_BulkUpdate abulk) := by
  refine ⟨_, rfl, ?_⟩
  split
  · exact beginTrans_leads.bind fun _ => bulkRest_leads true _
  · exact bulkRest_leads false _

theorem SUBIKDISK_GetVersion_checked : Checked SUBIKDISK_GetVersion := by
  refine ⟨_, rfl, (outcome_leads .ubeacon_AmSyncSite).bind fun _ => .ite (fun _ => exitLow_leads 5) fun _ => ?_⟩
  refine ubik_versionLock_leads.bind fun _ => (outcome_leads .getlabel).bind fun _ => ?_
  exact ubik_versionUnlock_leads.bind fun _ => ubik_rele_leads.bind fun _ => .pure 0

theorem SUBIKDISK_GetFile_checked : Checked SUBIKDISK_GetFile := by
  refine ⟨_, rfl, (outcome_leads .ubeacon_AmSyncSite).bind fun _ => .ite (fun _ => exitLow_leads 5) fun _ => ?_⟩
  refine ubik_versionLock_leads.bind fun _ => (outcome_leads .stat).bind fun _ => ?_
  refine .ite (fun _ => exit_leads _) fun _ => (outcome_leads .size).bind fun length => ?_
  refine (pushFile_leads _ _).bind fun codes => ?_
  have hend : ∀ excCode, Leads .both (if codes.1 ≠ 0 ∨ excCode ≠ 0 then exit (if codes.1 ≠ 0 then codes.1 else excCode)
      else do let code ← outcome .getlabel; exit code) .none := fun _ =>
    .ite (fun _ => exit_leads _) fun _ => body_exit_leads (outcome_leads .getlabel)
  refine .ite (fun _ => push_leads.bind hend) fun _ => ?_
  exact Passes.bind (.pure codes.2) hend

theorem SUBIKDISK_SendFile_checked (length : ℤ) : Checked (SUBIKDISK_SendFile length) := by
  refine ⟨_, rfl, (outcome_leads .ubeacon_AmSyncSite).bind fun _ => .ite (fun _ => exitLow_leads 5) fun _ => ?_⟩
  refine ubik_versionLock_leads.bind fun _ => (outcome_leads .setlabel).bind fun _ => ?_
  exact pullFile_leads _ _ (fun code => .pure code) sendFileEnd_leads

/-- The operations that do not give up between the two tests with a lock. -/
def Operation.unchecked : Operation → Bool
  | .GetServerInterfaces | .Probe => true
  | _ => false

theorem run_checked (op : Operation) (hop : op.unchecked = false) : Checked op.run := by
  cases op with
  | GetServerInterfaces => simp [Operation.unchecked] at hop
  | Begin => exact SUBIKDISK_Begin_checked
  | Commit => exact typedFirst_checked 0 (outcome_leads .udisk_commit)
  | ReleaseLocks => exact typedFirst_checked 0 (outcome_leads .udisk_end)
  | Abort => exact SUBIKDISK_Abort_checked
  | Lock alen => exact typedFirst_checked _ (ulock_SetLock_leads alen)
  | Write => exact typedFirst_checked 0 (outcome_leads .udisk_write)
  | BulkUpdate abulk => exact SUBIKDISK_BulkUpdate_checked abulk
  | Truncate => exact typedLast_checked (outcome_leads .udisk_truncate)
  | GetVersion => exact SUBIKDISK_GetVersion_checked
  | GetFile => exact SUBIKDISK_GetFile_checked
  | SendFile length => exact SUBIKDISK_SendFile_checked length
  | Probe => simp [Operation.unchecked] at hop

end Checked

section Entry

/-- The outcomes of a call of an operation that holds no lock. -/
def World.start (answers : Call → ℕ → ℤ) : World := ⟨answers, fun _ => 0, .none⟩

def unknownHost (answers : Call → ℕ → ℤ) : Prop := answers .ubik_CheckAuth 0 = 0 ∧ answers .ubik_CheckBadHost 0 ≠ 0

variable {answers : Call → ℕ → ℤ}

theorem checked_refused (body : Op ℤ) (hauth : answers .ubik_CheckAuth 0 ≠ 0) :
    (checked body (World.start answers)).2.locks = .none := by
  change ((if answers .ubik_CheckAuth 0 ≠ 0 then (return answers .ubik_CheckAuth 0 : Op ℤ) else _) _).2.locks = .none
  rw [if_pos hauth]
  rfl

theorem checked_unknownHost (body : Op ℤ) (hhost : unknownHost answers) :
    (checked body (World.start answers)).2.locks = .low := by
  have hnone : ¬ answers .ubik_CheckAuth 0 ≠ 0 := not_not_intro hhost.1
  have hbad : answers .ubik_CheckBadHost 0 ≠ 0 := hhost.2
  change ((if answers .ubik_CheckAuth 0 ≠ 0 then (return answers .ubik_CheckAuth 0 : Op ℤ) else do
    ubik_hold
    let code ← outcome .ubik_CheckBadHost
    if code ≠ 0 then return code
    body) (outcome .ubik_CheckAuth (World.start answers)).2).2.locks = .low
  rw [if_neg hnone]
  change ((if answers .ubik_CheckBadHost 0 ≠ 0 then (return answers .ubik_CheckBadHost 0 : Op ℤ) else body) _).2.locks = .low
  rw [if_pos hbad]
  rfl

theorem checked_balanced {body : Op ℤ} (hbody : Leads .low body .none) (hhost : ¬ unknownHost answers) :
    (checked body (World.start answers)).2.locks = .none := by
  by_cases hauth : answers .ubik_CheckAuth 0 ≠ 0
  · exact checked_refused body hauth
  · have hgood : ¬ answers .ubik_CheckBadHost 0 ≠ 0 := fun hbad => hhost ⟨not_not.mp hauth, hbad⟩
    change ((if answers .ubik_CheckAuth 0 ≠ 0 then (return answers .ubik_CheckAuth 0 : Op ℤ) else do
      ubik_hold
      let code ← outcome .ubik_CheckBadHost
      if code ≠ 0 then return code
      body) (outcome .ubik_CheckAuth (World.start answers)).2).2.locks = .none
    rw [if_neg hauth]
    change ((if answers .ubik_CheckBadHost 0 ≠ 0 then (return answers .ubik_CheckBadHost 0 : Op ℤ) else body) _).2.locks = .none
    rw [if_neg hgood]
    exact hbody _ rfl

theorem unchecked_balanced (op : Operation) (hop : op.unchecked = true) : Leads .none op.run .none := by
  cases op with
  | GetServerInterfaces => exact .pure 0
  | Probe =>
    refine (outcome_leads .ubik_CheckAuth).bind fun rc => .ite (fun _ => .pure rc) fun _ => ?_
    refine ubik_hold_leads.bind fun _ => (outcome_leads .ubik_CheckBadHost).bind fun rc => ?_
    exact ubik_rele_leads.bind fun _ => .pure rc
  | _ => simp [Operation.unchecked] at hop

/-- An operation returns without a lock, and without misuse of one, exactly if it is one of the two that test no host between
the two locks, or if it does not meet an authenticated caller from an unknown host. -/
theorem locks_balanced_iff (op : Operation) (answers : Call → ℕ → ℤ) :
    (op.run (World.start answers)).2.locks = .none ↔ op.unchecked = true ∨ ¬ unknownHost answers := by
  by_cases hop : op.unchecked = true
  · exact ⟨fun _ => .inl hop, fun _ => unchecked_balanced op hop _ rfl⟩
  · obtain ⟨body, hrun, hbody⟩ := run_checked op (Bool.not_eq_true _ ▸ hop)
    rw [hrun]
    constructor
    · refine fun hnone => .inr fun hhost => ?_
      rw [checked_unknownHost body hhost] at hnone
      exact absurd (congrArg Locks.ubik_llock hnone) Bool.noConfusion
    · rintro (hunchecked | hhost)
      · exact absurd hunchecked hop
      · exact checked_balanced hbody hhost

/-- `SUBIKDISK_Begin` from a host that is not a member: every later call waits for the low-level lock. -/
theorem begin_keeps_lock : ¬ ∀ (op : Operation) (answers : Call → ℕ → ℤ), (op.run (World.start answers)).2.locks = .none := by
  intro hall
  have hbegin := hall .Begin fun call _ => if call = .ubik_CheckBadHost then 1 else 0
  exact absurd hbegin (by decide)

end Entry

end dce.ubik.remote
