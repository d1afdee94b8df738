import Dce.Lib.System
import Dce.Ubik.Vote
import Dce.Ubik.Beacon

namespace dce.ubik

/-- The server group as every server has it: the lowest address of each server
and the magic host. `noHost` is not the address of a server. -/
structure Group where
  members : List Addr
  magic : Addr
  nodup : members.Nodup
  magic_mem : magic ∈ members
  valid : ∀ a ∈ members, a < noHost

/-- `ubik_nServers`. -/
def Group.nServers (g : Group) : ℕ := g.members.length

/-- The structure that stands for the server `v` at the others and at `v` itself. -/
def Group.server (g : Group) (v : Addr) : Server := { addr := v, up := true, magic := decide (v = g.magic) }

/-- The servers' clocks as functions of a common time. They are never set back,
and between any two moments two of them advance by the same number of seconds,
up to the second lost when `time(0)` truncates. -/
structure Clocks where
  read : Addr → ℕ → ℕ
  mono : ∀ a, Monotone (read a)
  sameRate : ∀ a b {t t' : ℕ}, t ≤ t' → read a t' + read b t ≤ read b t' + read a t + 1

/-- Clocks of `unit` ticks a second that differ in their offsets only. -/
def Clocks.ofOffsets (unit : ℕ) (hunit : 0 < unit) (offset : Addr → ℕ) : Clocks where
  read a t := (t + offset a) / unit
  mono a := fun _ _ hle => Nat.div_le_div_right (Nat.add_le_add_right hle _)
  sameRate a b t t' hle := by
    obtain ⟨d, rfl⟩ := Nat.exists_eq_add_of_le hle
    have hsplit (x : ℕ) : x / unit + d / unit ≤ (x + d) / unit ∧ (x + d) / unit ≤ x / unit + d / unit + 1 := by
      rw [Nat.add_div hunit]
      split <;> omega
    have ha := hsplit (t + offset a)
    have hb := hsplit (t + offset b)
    rw [Nat.add_right_comm t d, Nat.add_right_comm t d]
    omega

/-- A `UBIKVOTE_Beacon` call as its sender makes it. -/
structure BeaconRequest where
  sender : Addr
  voter : Addr
  round : ℕ
  astate : Bool
  astart : ℕ
  avers : Version
  atid : Tid
  deriving DecidableEq, Repr

/-- A beacon call that runs at its voter: the clock reading it started with, and
whether it is past the clock tests. -/
structure BeaconCall where
  req : BeaconRequest
  now : ℕ
  tested : Bool
  deriving DecidableEq, Repr

/-- What a beacon call returned. -/
structure BeaconReply where
  req : BeaconRequest
  args : BeaconArgs
  deriving DecidableEq, Repr

/-- One vote collection of `ubeacon_Interact`: the servers it asked, its start
time, whether the local call was queued, and the results that are in. -/
structure Round where
  round : ℕ
  startTime : ℕ
  atid : Tid
  servers : List Addr
  localQueued : Bool
  results : Addr → Option BeaconArgs

/-- The whole group at a moment `time`. Requests and replies are kept for good, so
that any of them may arrive late, several times, or never. -/
structure Election where
  time : ℕ
  voter : Addr → Voter
  candidate : Addr → Candidate
  collecting : Addr → Option Round
  rounds : ℕ
  requests : List BeaconRequest
  calls : List BeaconCall
  replies : List BeaconReply

/-- The steps of the group. -/
inductive ElectionStep where
  /-- Time passes. -/
  | tick (t : ℕ)
  /-- `ubeacon_Interact` asks those of the other servers that are marked up. -/
  | startRound (p : Addr) (servers : List Addr) (avers : Version) (atid : Tid)
  /-- `ubeacon_Interact` queues its local beacon. -/
  | localBeacon (p : Addr) (avers : Version)
  /-- A beacon call starts at its voter; a retried call starts again. -/
  | arrive (q : BeaconRequest)
  /-- A beacon call makes its clock tests. -/
  | skewTest (c : BeaconCall)
  /-- A beacon call holds the ubik lock and votes. -/
  | vote (c : BeaconCall)
  /-- A beacon call is refused or lost. -/
  | callFails (c : BeaconCall)
  /-- The reply to a call of the current round comes in. -/
  | getReply (r : BeaconReply)
  /-- A call of the current round is given up, or was never queued. -/
  | noReply (p v : Addr) (queued : Bool)
  /-- All calls of the round are back: `ubeacon_Interact` counts the votes. -/
  | finishRound (p : Addr)
  /-- Some thread calls `ubeacon_AmSyncSite`. -/
  | amSyncSite (p : Addr)
  /-- Some thread calls `ubik_ResetState`. -/
  | resetState (p : Addr)
  /-- The server process dies and starts again. -/
  | restart (p : Addr)

namespace Election

/-- What a call of `ubeacon_AmSyncSite` at `p` would return. -/
def answersSyncSite (g : Group) (clocks : Clocks) (s : Election) (p : Addr) : Bool :=
  (ubeacon_AmSyncSite g.nServers (s.candidate p) (clocks.read p s.time)).1

/-- A call of `ubeacon_AmSyncSite` at `p`. -/
def callAmSyncSite (g : Group) (clocks : Clocks) (s : Election) (p : Addr) : Election :=
  { s with
    candidate := Function.update s.candidate p
      (ubeacon_AmSyncSite g.nServers (s.candidate p) (clocks.read p s.time)).2 }

/-- `ubik_ResetState` at `p`. -/
def ubik_ResetState (clocks : Clocks) (s : Election) (p : Addr) : Election :=
  { s with
    voter := Function.update s.voter p (uvote_ResetState (s.voter p) (clocks.read p s.time))
    candidate := Function.update s.candidate p (dce.ubik.ubeacon_ResetState (s.candidate p)) }

/-- The beginning of a vote collection, up to the remote beacons. -/
def startRound (g : Group) (clocks : Clocks) (s : Election) (p : Addr) (servers : List Addr) (avers : Version)
    (atid : Tid) : Election :=
  let syncsite := s.answersSyncSite g clocks p
  let s := s.callAmSyncSite g clocks p
  let startTime := clocks.read p s.time
  { s with
    collecting := Function.update s.collecting p (some ⟨s.rounds, startTime, atid, servers, false, fun _ => none⟩)
    rounds := s.rounds + 1
    requests := servers.map (fun v => ⟨p, v, s.rounds, syncsite, startTime, avers, atid⟩) ++ s.requests }

/-- The local beacon, with its own call of `ubeacon_AmSyncSite`. -/
def localBeacon (g : Group) (clocks : Clocks) (s : Election) (p : Addr) (r : Round) (avers : Version) : Election :=
  let syncsite := s.answersSyncSite g clocks p
  let s := s.callAmSyncSite g clocks p
  { s with
    collecting := Function.update s.collecting p (some { r with localQueued := true })
    requests := ⟨p, p, r.round, syncsite, r.startTime, avers, r.atid⟩ :: s.requests }

def answer (s : Election) (c : BeaconCall) (args : BeaconArgs) : Election :=
  { s with calls := s.calls.erase c, replies := ⟨c.req, args⟩ :: s.replies }

def skewTest (clocks : Clocks) (s : Election) (c : BeaconCall) : Election :=
  match beaconSkewTest (s.voter c.req.voter) c.now c.req.astart with
  | .passed => { s with calls := { c with tested := true } :: s.calls.erase c }
  | .skewed => s.answer c ⟨.uskewed, 0⟩
  | .skewedReset => (s.ubik_ResetState clocks c.req.voter).answer c ⟨.uskewed, 0⟩

def vote (s : Election) (c : BeaconCall) : Election :=
  let result := beaconVote c.req.voter c.req.sender c.req.astate c.now c.req.astart c.req.avers c.req.atid
    (s.voter c.req.voter)
  let s := { s with voter := Function.update s.voter c.req.voter result.1 }
  s.answer c ⟨.ok, result.2⟩

/-- A result enters the `beacon_args` of the current round of `p`. -/
def storeResult (s : Election) (p : Addr) (r : Round) (v : Addr) (args : BeaconArgs) : Election :=
  let r := { r with results := Function.update r.results v (some args) }
  { s with collecting := Function.update s.collecting p (some r) }

/-- The remote results of a round, in the order of `servers`, once all are in. -/
def remoteResults (g : Group) (r : Round) : Option (List (Server × BeaconArgs)) :=
  r.servers.mapM fun v => (r.results v).map fun args => (g.server v, args)

def finishRound (g : Group) (clocks : Clocks) (s : Election) (p : Addr) (remote : List (Server × BeaconArgs))
    (own : BeaconArgs) : Election :=
  let count := ubeacon_wait_for_votes (g.server p) remote own
  let s := if count.reset then s.ubik_ResetState clocks p else s
  { s with
    candidate := Function.update s.candidate p (decideElection g.nServers count (s.candidate p))
    collecting := Function.update s.collecting p none }

/-- A process start: `uvote_Init` and fresh statics. The calls that ran at the
server die with the old process. -/
def restart (clocks : Clocks) (s : Election) (p : Addr) : Election :=
  { s with
    voter := Function.update s.voter p (uvote_Init (clocks.read p s.time))
    candidate := Function.update s.candidate p {}
    collecting := Function.update s.collecting p none
    calls := s.calls.filter fun c => c.req.voter != p }

def step (g : Group) (clocks : Clocks) (s : Election) : ElectionStep → Option Election
  | .tick t => if s.time ≤ t then some { s with time := t } else none
  | .startRound p servers avers atid =>
    if p ∈ g.members ∧ (s.collecting p).isNone ∧ g.nServers ≠ 1 ∧ uvote_ShouldIRun p (s.voter p) (clocks.read p s.time) ∧
        servers.Nodup ∧ (∀ v ∈ servers, v ∈ g.members ∧ v ≠ p)
    then some (s.startRound g clocks p servers avers atid) else none
  | .localBeacon p avers =>
    match s.collecting p with
    | some r => if r.localQueued then none else some (s.localBeacon g clocks p r avers)
    | none => none
  | .arrive q =>
    if q ∈ s.requests then some { s with calls := ⟨q, clocks.read q.voter s.time, false⟩ :: s.calls } else none
  | .skewTest c => if c ∈ s.calls ∧ c.tested = false then some (s.skewTest clocks c) else none
  | .vote c => if c ∈ s.calls ∧ c.tested = true then some (s.vote c) else none
  | .callFails c => if c ∈ s.calls then some (s.answer c ⟨.failed, 0⟩) else none
  | .getReply r =>
    match s.collecting r.req.sender with
    | some rd =>
      if r ∈ s.replies ∧ r.req.round = rd.round then some (s.storeResult r.req.sender rd r.req.voter r.args) else none
    | none => none
  | .noReply p v queued =>
    match s.collecting p with
    | some r => some (s.storeResult p r v ⟨if queued then .failed else .ok, 0⟩)
    | none => none
  | .finishRound p =>
    match s.collecting p with
    | some r =>
      match remoteResults g r, r.results p with
      | some remote, some own => if r.localQueued then some (s.finishRound g clocks p remote own) else none
      | _, _ => none
    | none => none
  | .amSyncSite p => some (s.callAmSyncSite g clocks p)
  | .resetState p => some (s.ubik_ResetState clocks p)
  | .restart p => some (s.restart clocks p)

def start (clocks : Clocks) (t : ℕ) : Election where
  time := t
  voter := fun a => uvote_Init (clocks.read a t)
  candidate := fun _ => {}
  collecting := fun _ => none
  rounds := 0
  requests := []
  calls := []
  replies := []

end Election

def election (g : Group) (clocks : Clocks) : lib.System Election ElectionStep where
  init s := ∃ t, s = Election.start clocks t
  step s i := s.step g clocks i

end dce.ubik
