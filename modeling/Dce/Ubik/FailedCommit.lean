import Dce.Ubik.Transaction

open lib

namespace dce.ubik.failing

/-- How `udisk_LogEnd` fails. -/
inductive LogEndError where
  /-- No end of the log is found, and nothing is written. -/
  | stat
  /-- Only so many bytes of the record come into the log, or the file cannot be closed. -/
  | write (count : ℕ)
  /-- The record is written, but the log is not synced. -/
  | sync

/-- What is in the log when `udisk_LogEnd` has failed. -/
def udisk_LogEndError (order : ByteOrder) (d : Disk) (version : Version) : LogEndError → Disk
  | .stat => d
  | .write count =>
    uphys_write d LOGFILE (uphys_stat d LOGFILE)
      ((longsToMemory order (order.htonl LOGEND :: version.longs.map order.htonl)).take count)
  | .sync => udisk_LogEnd order d version

/-- What the server has of its database while no write transaction runs: the version in memory, the files and the buffers. -/
structure Server where
  version : Version
  disk : Disk
  buffers : Buffers

/-- A write transaction with its flags, and the version in memory. -/
structure Active where
  trans : WriteTrans
  version : Version
  TRDONE : Bool
  TRABORT : Bool

def Server.begin (order : ByteOrder) (s : Server) : Active := ⟨udisk_begin order s.disk s.buffers, s.version, false, false⟩

def Active.updates (order : ByteOrder) (a : Active) (script : List DbUpdate) : Active :=
  { a with trans := a.trans.updates order script }

/-- `udisk_commit` when `udisk_LogEnd` fails: the flag and the version are set before. -/
def udisk_commitError (order : ByteOrder) (a : Active) (error : LogEndError) : Active :=
  if a.TRDONE then a
  else
    let version : Version := { a.version with counter := a.version.counter + 1 }
    { a with
      TRDONE := true
      version
      trans := { a.trans with disk := udisk_LogEndError order a.trans.disk version error } }

/-- `DAbort`: the buffers of dirty pages hold no page any more. -/
def DAbort (b : Buffers) : Buffers where
  page p := if p ∈ b.dirty then none else b.page p
  dirty := []

/-- `udisk_abort`, which refuses a transaction that is done. -/
def udisk_abort (order : ByteOrder) (a : Active) : Active :=
  if a.TRDONE then a
  else
    { a with
      TRDONE := true
      TRABORT := true
      trans := { a.trans with
        disk := uphys_truncate (udisk_LogOpcode order a.trans.disk LOGABORT) LOGFILE 0
        buffers := DAbort a.trans.buffers } }

/-- `udisk_end`: a transaction that is not done is aborted, and then it is gone. -/
def udisk_end (order : ByteOrder) (a : Active) : Server :=
  let a := if a.TRDONE then a else udisk_abort order a
  ⟨a.version, a.trans.disk, a.trans.buffers⟩

def failedCommit (order : ByteOrder) (a : Active) (error : LogEndError) : Server :=
  udisk_end order (udisk_commitError order a error)

/-- A committed transaction that follows logs and writes its own updates and no others. -/
structure OwnUpdates (order : ByteOrder) (s : Server) : Prop where
  logged : ∀ script : List DbUpdate, (((s.begin order).updates order script).trans.disk LOGFILE).data =
    ByteFile.ofList (encodeLongs [LOGNEW] ++ encodeUpdates (script.map DbUpdate.toUpdate))
  written : ∀ script : List DbUpdate, ∀ p ∈ ((s.begin order).updates order script).trans.buffers.dirty,
    ∃ pos data, FileOp.write pos data ∈ script.map DbUpdate.toOp ∧ touches pos data.length p

/-- A transaction has left no trace: the server is as it was before. -/
structure NoTrace (order : ByteOrder) (before after : Server) : Prop where
  version : after.version = before.version
  clean : after.buffers.dirty = []
  reads : ∀ page, DRead after.disk after.buffers page = DRead before.disk before.buffers page
  log : (after.disk LOGFILE).data = ByteFile.empty
  next : OwnUpdates order after

section Aborted

variable {order : ByteOrder} {s : Server}

end Aborted

section Failed

variable {order : ByteOrder} {a : Active} {error : LogEndError}

theorem failedCommit_eq (hrunning : a.TRDONE = false) : failedCommit order a error =
    ⟨{ a.version with counter := a.version.counter + 1 },
      udisk_LogEndError order a.trans.disk { a.version with counter := a.version.counter + 1 } error, a.trans.buffers⟩ := by
  unfold failedCommit udisk_commitError
  rw [if_neg (by simp [hrunning])]
  rfl

/-- A failed commit always leaves a trace, whatever the transaction did and however the log fails. -/
theorem failedCommit_leaves_trace (order : ByteOrder) (before : Server) (trans : WriteTrans) (error : LogEndError) :
    ¬ NoTrace order before (failedCommit order ⟨trans, before.version, false, false⟩ error) := by
  intro hnone
  have hversion := hnone.version
  rw [failedCommit_eq rfl] at hversion
  have hcounter := congrArg Version.counter hversion
  dsimp only at hcounter
  omega

def Server.fresh : Server := ⟨⟨1, 1⟩, fun _ => ⟨none, ByteFile.empty⟩, ⟨fun _ => none, []⟩⟩

/-- One byte is written, and the log is not synced: the version moves, and the byte stays in its dirty page. -/
theorem unsynced_commit_leaves_trace : ¬ ∀ (order : ByteOrder) (s : Server) (script : List DbUpdate) (error : LogEndError),
    NoTrace order s (failedCommit order ((s.begin order).updates order script) error) := by
  intro hall
  have hclean := (hall .big .fresh [.write 0 ⟨[65], by decide⟩] .sync).clean
  have hran := WriteTrans.Ran.updates .big (d := Server.fresh.disk) (b := Server.fresh.buffers) rfl rfl
    [.write 0 ⟨[65], by decide⟩]
  have hdirty := (hran.dirty 0).mpr (Or.inr ⟨0, [65], List.mem_singleton.mpr rfl, 0, Nat.le_refl 0, by decide, by decide⟩)
  rw [failedCommit_eq rfl] at hclean
  refine List.not_mem_nil (?_ : 0 ∈ [])
  rw [← hclean]
  exact hdirty

end Failed

end dce.ubik.failing
