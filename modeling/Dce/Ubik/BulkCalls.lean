import Dce.Lib.FileScript
import Dce.Lib.System
import Dce.Ubik.Phys

open lib

namespace dce.ubik.propagation

abbrev UBULK_MAXLENGTH : ℕ := 1024

abbrev UBULK_BEGIN : ℤ := 0

abbrev UBULK_LOCK : ℤ := 1

abbrev UBULK_TRUNC : ℤ := 2

abbrev UBULK_WRITE : ℤ := 3

abbrev LOCKREAD : ℤ := 2

abbrev LOCKWRITE : ℤ := 3

/-- `ubik_bulk_update`, an entry of the update vectors. -/
structure BulkUpdate where
  op : ℤ
  arg1 : ℤ
  arg2 : ℤ
  arg3 : ℤ
  arg4 : ℤ
  length : ℕ
  data : List Byte
  deriving Inhabited

/-- What a replica does in a transaction. -/
inductive Executed where
  | Begin
  | Lock (pos len type : ℤ)
  | Truncate (file length : ℤ)
  | Write (file pos : ℤ) (data : List Byte)
  | Commit
  deriving DecidableEq

/-- An entry in the loop of `SUBIKDISK_BulkUpdate`; without a result it is `UBADBULK`. -/
def BulkUpdate.run (bulk : BulkUpdate) : Option Executed :=
  if bulk.op = UBULK_LOCK then some (.Lock bulk.arg2 bulk.arg3 bulk.arg4)
  else if bulk.op = UBULK_TRUNC then some (.Truncate bulk.arg1 bulk.arg2)
  else if bulk.op = UBULK_WRITE then some (.Write bulk.arg1 bulk.arg2 (bulk.data.take bulk.length))
  else none

/-- `SUBIKDISK_BulkUpdate` on a server that has a transaction or not, when all that it calls succeeds. -/
def SUBIKDISK_BulkUpdate (currentTrans : Bool) : List BulkUpdate → Option (List Executed)
  | [] => none
  | first :: rest =>
    if first.op = UBULK_BEGIN then (rest.mapM BulkUpdate.run).map (.Begin :: ·)
    else if currentTrans then (first :: rest).mapM BulkUpdate.run
    else none

/-- One round of `ubik_BulkUpdateCompatRtn`: the call that it makes for an entry, when all that it calls succeeds. -/
def compatCall (currentTrans : Bool) (bulk : BulkUpdate) : Option Executed :=
  if bulk.op = UBULK_BEGIN then some .Begin
  else if bulk.op = UBULK_LOCK then
    if currentTrans ∧ bulk.arg3 = 1 then some (.Lock bulk.arg2 bulk.arg3 bulk.arg4) else none
  else if bulk.op = UBULK_TRUNC then if currentTrans then some (.Truncate bulk.arg1 bulk.arg2) else none
  else if bulk.op = UBULK_WRITE then
    if currentTrans then some (.Write bulk.arg1 bulk.arg2 (bulk.data.take bulk.length)) else none
  else none

/-- The two update vectors of a transaction. -/
inductive Vector where
  | first
  | second
  deriving DecidableEq

/-- The arguments of an asynchronous call. -/
structure Params where
  nbulk : ℕ
  bulk : Vector

/-- The thread that makes the calls to a server. -/
inductive Thread where
  | idle
  /-- Marshals the vector for `UBIKDISK_BulkUpdate`. -/
  | BulkUpdate (parm : Params) (marshalled : List BulkUpdate)
  /-- In `ubik_BulkUpdateCompatRtn` before the entry `i`. -/
  | BulkUpdateCompat (parm : Params) (i : ℕ)
  | Commit

def Thread.isIdle : Thread → Bool
  | .idle => true
  | _ => false

/-- A server as the sync site sees it, and what it has executed. -/
structure Server where
  /-- Up, and its database current. -/
  upToDate : Bool
  /-- Whether the server has `UBIKDISK_BulkUpdate`. -/
  version2 : Bool
  thread : Thread
  currentTrans : Bool
  executed : List Executed

/-- The calls between `ubik_BeginTrans` and `ubik_EndTrans`. Locks are of length 1. -/
inductive Call where
  | Seek (fileid : ℤ) (position : ℕ)
  | Write (buffer : List Byte)
  | Truncate (length : ℤ)
  | SetLock (apos atype : ℤ)

/-- Where the sync site is. -/
inductive Pc where
  | BeginTrans
  | calls (rest : List Call)
  /-- At the top of the loop of `ubik_Write`. -/
  | Write (startPos : ℕ) (buffer : List Byte) (rest : List Call)
  /-- The vector is full. -/
  | full (next : Pc)
  /-- `ubik_Flush` sends what is left of the vector. -/
  | Flush
  | WaitFlush
  | Commit
  /-- `WaitContactQuorum` for the commit. -/
  | WaitCommit
  | done

/-- A write transaction at the sync site, and the other servers. -/
structure State where
  memory : Vector → ℕ → BulkUpdate
  bulk : Vector
  nbulk : ℕ
  rpc_bulk : Vector
  rpc_nbulk : ℕ
  seekFile : ℤ
  seekPos : ℕ
  RpcRunning : Bool
  pc : Pc
  servers : ℕ → Server
  /-- What is known of the servers' versions, and what the threads find them to be. -/
  ProviderVers : ℕ → ℕ
  srvr_pver : ℕ → ℕ

namespace State

/-- An entry at the end of the vector, with the test whether this is full. The fields that the entry leaves alone stay. -/
def append (ubik_maxbulk : ℕ) (s : State) (entry : BulkUpdate → BulkUpdate) (next : Pc) : State :=
  { s with
    memory := Function.update s.memory s.bulk (Function.update (s.memory s.bulk) s.nbulk (entry (s.memory s.bulk s.nbulk)))
    nbulk := s.nbulk + 1
    pc := if s.nbulk + 1 = ubik_maxbulk then .full next else next }

def Quiet (nservers : ℕ) (s : State) : Prop := ∀ i < nservers, (s.servers i).thread.isIdle = true

instance (nservers : ℕ) (s : State) : Decidable (s.Quiet nservers) :=
  inferInstanceAs (Decidable (∀ i < nservers, (s.servers i).thread.isIdle = true))

/-- `WaitContactQuorum`, when it does not wait any more and all calls have succeeded. -/
def WaitContactQuorum (nservers : ℕ) (s : State) : Option State :=
  if ¬s.RpcRunning then some s
  else if s.Quiet nservers then
    some { s with
      RpcRunning := false
      ProviderVers := fun i =>
        if (s.servers i).upToDate ∧ s.srvr_pver i < s.ProviderVers i then s.srvr_pver i else s.ProviderVers i }
  else none

/-- `AsyncContactQuorum` after its wait: a thread for each server that is up to date. -/
def AsyncContactQuorum (nservers : ℕ) (s : State) (thread : ℕ → Thread) : State :=
  { s with
    servers := fun i =>
      if (s.servers i).upToDate then { s.servers i with thread := thread (s.ProviderVers i) } else s.servers i
    srvr_pver := s.ProviderVers
    RpcRunning := s.RpcRunning || (List.range nservers).any fun i => (s.servers i).upToDate }

/-- How a thread begins with an update vector for a server of some version. -/
def bulkUpdate (parm : Params) (srvr_pver : ℕ) : Thread :=
  if 2 ≤ srvr_pver then .BulkUpdate parm [] else .BulkUpdateCompat parm 0

/-- The sync site's next step; without a result it waits. -/
def syncSite (ubik_maxbulk nservers : ℕ) (script : List Call) (s : State) : Option State :=
  match s.pc with
  | .BeginTrans =>
    some (s.append ubik_maxbulk (fun entry =>
      { entry with op := UBULK_BEGIN, arg1 := 0, arg2 := 0, arg3 := 0, arg4 := 0, length := 0 }) (.calls script))
  | .calls [] => some { s with pc := .Flush }
  | .calls (.Seek fileid position :: rest) => some { s with seekFile := fileid, seekPos := position, pc := .calls rest }
  | .calls (.Write buffer :: rest) =>
    some { s with seekPos := s.seekPos + buffer.length, pc := .Write s.seekPos buffer rest }
  | .calls (.Truncate length :: rest) =>
    some (s.append ubik_maxbulk (fun entry =>
      { entry with op := UBULK_TRUNC, arg1 := s.seekFile, arg2 := length, arg3 := 0, arg4 := 0, length := 0 }) (.calls rest))
  | .calls (.SetLock apos atype :: rest) =>
    if atype = LOCKREAD then some { s with pc := .calls rest }
    else
      some (s.append ubik_maxbulk (fun entry =>
        { entry with op := UBULK_LOCK, arg1 := 0, arg2 := apos, arg3 := 1, arg4 := LOCKWRITE, length := 0 }) (.calls rest))
  | .Write startPos buffer rest =>
    if buffer = [] then some { s with pc := .calls rest }
    else
      let xfrLength := if buffer.length > UBULK_MAXLENGTH then UBULK_MAXLENGTH else buffer.length
      some (s.append ubik_maxbulk (fun entry =>
        { op := UBULK_WRITE, arg1 := s.seekFile, arg2 := startPos, arg3 := 0, arg4 := 0, length := xfrLength
          data := buffer.take xfrLength ++ entry.data.drop xfrLength })
        (.Write (startPos + xfrLength) (buffer.drop xfrLength) rest))
  | .full next =>
    (s.WaitContactQuorum nservers).map fun s =>
      let s := { s with bulk := s.rpc_bulk, rpc_bulk := s.bulk, rpc_nbulk := s.nbulk, nbulk := 0, pc := next }
      s.AsyncContactQuorum nservers (bulkUpdate ⟨s.rpc_nbulk, s.rpc_bulk⟩)
  | .Flush =>
    -- both ways wait for the call that runs
    (s.WaitContactQuorum nservers).map fun s =>
      if s.nbulk ≠ 0 then
        { s.AsyncContactQuorum nservers (bulkUpdate ⟨s.nbulk, s.bulk⟩) with pc := .WaitFlush }
      else { s with pc := .Commit }
  | .WaitFlush => (s.WaitContactQuorum nservers).map fun s => { s with nbulk := 0, pc := .Commit }
  | .Commit =>
    (s.WaitContactQuorum nservers).map fun s =>
      { s.AsyncContactQuorum nservers fun _ => .Commit with pc := .WaitCommit }
  | .WaitCommit => (s.WaitContactQuorum nservers).map fun s => { s with pc := .done }
  | .done => none

/-- The next step of the thread for a server; without a result its call fails. -/
def rpc (s : State) (i : ℕ) : Option State :=
  let server := s.servers i
  let update (server : Server) : State := { s with servers := Function.update s.servers i server }
  match server.thread with
  | .idle => none
  | .BulkUpdate parm marshalled =>
    if marshalled.length < parm.nbulk then
      some (update { server with
        thread := .BulkUpdate parm (marshalled ++ [s.memory parm.bulk marshalled.length]) })
    else if server.version2 then
      (SUBIKDISK_BulkUpdate server.currentTrans marshalled).map fun executed =>
        update { server with thread := .idle, currentTrans := true, executed := server.executed ++ executed }
    else
      some { update { server with thread := .BulkUpdateCompat parm 0 } with srvr_pver := Function.update s.srvr_pver i 1 }
  | .BulkUpdateCompat parm k =>
    if k < parm.nbulk then
      (compatCall server.currentTrans (s.memory parm.bulk k)).map fun executed =>
        update { server with
          thread := .BulkUpdateCompat parm (k + 1), currentTrans := true, executed := server.executed ++ [executed] }
    else some (update { server with thread := .idle })
  | .Commit =>
    if server.currentTrans then
      some (update { server with thread := .idle, executed := server.executed ++ [.Commit] })
    else none

end State

inductive Event where
  | syncSite
  | rpc (i : ℕ)
  /-- A server is not up to date any more. -/
  | lost (i : ℕ)

/-- A write transaction from its beginning on, with all calls succeeding. -/
def writeTrans (ubik_maxbulk nservers : ℕ) (script : List Call) : System State Event where
  init s :=
    s.bulk ≠ s.rpc_bulk ∧ s.nbulk = 0 ∧ s.seekFile = 0 ∧ s.seekPos = 0 ∧ s.RpcRunning = false ∧ s.pc = .BeginTrans ∧
      ∀ i, (s.servers i).thread = .idle ∧ (s.servers i).executed = [] ∧ (s.servers i).currentTrans = false
  step s
    | .syncSite => s.syncSite ubik_maxbulk nservers script
    | .rpc i => if i < nservers then s.rpc i else none
    | .lost i =>
      some { s with servers := Function.update s.servers i { s.servers i with upToDate := false } }

end dce.ubik.propagation
