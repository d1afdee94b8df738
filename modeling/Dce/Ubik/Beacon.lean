import Mathlib.Algebra.Group.Action.Defs
import Dce.Lib.Quorum
import Dce.Ubik.Phys

open Finset

namespace dce.ubik

/-- The statics of `beacon.c` that say whether this server is sync site. -/
structure Candidate where
  ubik_amSyncSite : Bool := false
  syncSiteUntil : ℕ := 0
  deriving DecidableEq, Repr

/-- `ubeacon_AmSyncSite` in a group of `nServers`: the answer, and the state with
an expired claim given up. -/
def ubeacon_AmSyncSite (nServers : ℕ) (c : Candidate) (now : ℕ) : Bool × Candidate :=
  if nServers = 1 then (true, c)
  else if c.ubik_amSyncSite = false then (false, c)
  else if c.syncSiteUntil ≤ now then (false, { c with ubik_amSyncSite := false })
  else (true, c)

/-- `ubeacon_ResetState`. `syncSiteUntil` keeps its value. -/
def ubeacon_ResetState (c : Candidate) : Candidate := { c with ubik_amSyncSite := false }

/-- The status a beacon call leaves in its `beacon_args`. -/
inductive RpcStatus where
  | ok
  | uskewed
  | failed
  deriving DecidableEq, Repr

/-- The results in one element of `beacon_args`. -/
structure BeaconArgs where
  rpc_status : RpcStatus
  voteTime : ℕ
  deriving DecidableEq, Repr

/-- What `ubeacon_wait_for_votes` hands back. `reset` says that it found a skewed
clock and ran `ubik_ResetState`. -/
structure VoteCount where
  yesVotes : ℕ
  voteTime : ℕ
  reset : Bool
  deriving DecidableEq, Repr

def VoteCount.start : VoteCount := ⟨0, 0x7fffffff, false⟩

/-- The fields of `struct ubik_server` that the election uses. An address of `0` is
not set yet. -/
structure Server where
  addr : Addr := 0
  bindingCount : ℕ := 0
  up : Bool := false
  badhost : Bool := false
  magic : Bool := false
  deriving DecidableEq, Repr

/-- The weight of one yes vote: the magic host's counts epsilon more. -/
def Server.weight (ts : Server) : ℕ := if ts.magic then 3 else 2

def VoteCount.add (count : VoteCount) (weight voteTime : ℕ) : VoteCount :=
  { count with yesVotes := count.yesVotes + weight, voteTime := min voteTime count.voteTime }

/-- The loop of `ubeacon_wait_for_votes` over the servers that were asked. A
`USKEWED` reply throws all votes away. -/
def countVotes : List (Server × BeaconArgs) → VoteCount → VoteCount
  | [], count => count
  | (ts, args) :: rest, count =>
    match args.rpc_status with
    | .uskewed => { VoteCount.start with reset := true }
    | .failed => countVotes rest count
    | .ok =>
      if args.voteTime = 0 then countVotes rest count
      else countVotes rest (count.add ts.weight args.voteTime)

/-- `ubeacon_wait_for_votes` once every call has come back: the servers that were
asked, then the vote of `ubik_host` itself. -/
def ubeacon_wait_for_votes (ubik_host : Server) (servers : List (Server × BeaconArgs)) (own : BeaconArgs) : VoteCount :=
  let count := countVotes servers .start
  if count.reset then count
  else if own.rpc_status = .ok ∧ own.voteTime ≠ 0 then count.add ubik_host.weight own.voteTime
  else count

/-- What `ubeacon_Interact` makes of the votes of one round. The end of the claim
never goes backwards. -/
def decideElection (nServers : ℕ) (count : VoteCount) (c : Candidate) : Candidate :=
  if count.yesVotes > nServers then
    { ubik_amSyncSite := true, syncSiteUntil := max c.syncSiteUntil (count.voteTime + SMALLTIME) }
  else { c with ubik_amSyncSite := false }

@[simp] theorem ubeacon_AmSyncSite_until (nServers : ℕ) (c : Candidate) (now : ℕ) :
    (ubeacon_AmSyncSite nServers c now).2.syncSiteUntil = c.syncSiteUntil := by
  unfold ubeacon_AmSyncSite
  split
  · rfl
  · split
    · rfl
    · split <;> rfl

@[simp] theorem ubeacon_ResetState_until (c : Candidate) :
    (ubeacon_ResetState c).syncSiteUntil = c.syncSiteUntil := rfl

theorem now_lt_until_of_AmSyncSite {nServers : ℕ} {c : Candidate} {now : ℕ} (hmany : nServers ≠ 1)
    (hsync : (ubeacon_AmSyncSite nServers c now).1 = true) : now < c.syncSiteUntil := by
  unfold ubeacon_AmSyncSite at hsync
  rw [if_neg hmany] at hsync
  split at hsync
  · cases hsync
  · split at hsync
    · cases hsync
    · omega

def BeaconArgs.IsYes (args : BeaconArgs) : Prop := args.rpc_status = .ok ∧ args.voteTime ≠ 0

instance (args : BeaconArgs) : Decidable args.IsYes := inferInstanceAs (Decidable (_ ∧ _))

def yesResults (servers : List (Server × BeaconArgs)) : List (Server × BeaconArgs) :=
  servers.filter fun server => decide server.2.IsYes

theorem yesResults_cons_of_yes {server : Server × BeaconArgs} (servers : List (Server × BeaconArgs))
    (hyes : server.2.IsYes) : yesResults (server :: servers) = server :: yesResults servers := by
  simp [yesResults, hyes]

theorem yesResults_cons_of_not_yes {server : Server × BeaconArgs} (servers : List (Server × BeaconArgs))
    (hno : ¬server.2.IsYes) : yesResults (server :: servers) = yesResults servers := by
  simp [yesResults, hno]

/-- `count` holds exactly the given yes votes: their weights are summed, and the
time is not after any of them. -/
structure VoteCount.Counts (count : VoteCount) (votes : List (Server × BeaconArgs)) : Prop where
  noReset : count.reset = false
  weight : count.yesVotes = (votes.map fun server => server.1.weight).sum
  oldest : ∀ server ∈ votes, count.voteTime ≤ server.2.voteTime

theorem VoteCount.start_counts : VoteCount.start.Counts [] :=
  ⟨rfl, rfl, by simp⟩

theorem VoteCount.Counts.add {count : VoteCount} {votes : List (Server × BeaconArgs)}
    (hcount : count.Counts votes) (server : Server × BeaconArgs) :
    (count.add server.1.weight server.2.voteTime).Counts (votes ++ [server]) where
  noReset := hcount.noReset
  weight := by
    simp only [VoteCount.add, hcount.weight, List.map_append, List.sum_append, List.map_cons, List.map_nil,
      List.sum_cons, List.sum_nil, Nat.add_zero]
  oldest := by
    intro voter hvoter
    rcases List.mem_append.mp hvoter with hold | hnew
    · exact (Nat.min_le_right _ _).trans (hcount.oldest voter hold)
    · obtain rfl : voter = server := by simpa using hnew
      exact Nat.min_le_left _ _

theorem countVotes_cases (servers : List (Server × BeaconArgs)) (count : VoteCount)
    (votes : List (Server × BeaconArgs)) (hcount : count.Counts votes) :
    countVotes servers count = { VoteCount.start with reset := true } ∨
      (countVotes servers count).Counts (votes ++ yesResults servers) := by
  induction servers generalizing count votes with
  | nil => exact Or.inr (by simpa [countVotes, yesResults] using hcount)
  | cons server servers ih =>
    obtain ⟨ts, args⟩ := server
    rw [countVotes]
    cases hstatus : args.rpc_status with
    | uskewed => exact Or.inl rfl
    | failed =>
      have hno : ¬BeaconArgs.IsYes (ts, args).2 := fun hyes => by simp [BeaconArgs.IsYes, hstatus] at hyes
      rw [yesResults_cons_of_not_yes servers hno]
      exact ih count votes hcount
    | ok =>
      by_cases hzero : args.voteTime = 0
      · have hno : ¬BeaconArgs.IsYes (ts, args).2 := fun hyes => hyes.2 hzero
        rw [yesResults_cons_of_not_yes servers hno]
        simpa [hzero] using ih count votes hcount
      · have hyes : BeaconArgs.IsYes (ts, args).2 := ⟨hstatus, hzero⟩
        rw [yesResults_cons_of_yes servers hyes, List.append_cons]
        simpa [hzero] using ih _ _ (hcount.add (ts, args))

theorem ubeacon_wait_for_votes_cases (ubik_host : Server) (servers : List (Server × BeaconArgs)) (own : BeaconArgs) :
    ubeacon_wait_for_votes ubik_host servers own = { VoteCount.start with reset := true } ∨
      (ubeacon_wait_for_votes ubik_host servers own).Counts (yesResults (servers ++ [(ubik_host, own)])) := by
  unfold ubeacon_wait_for_votes
  rcases countVotes_cases servers .start [] VoteCount.start_counts with hreset | hcount
  · rw [hreset]
    exact Or.inl rfl
  · right
    have hsplit : yesResults (servers ++ [(ubik_host, own)]) = yesResults servers ++ yesResults [(ubik_host, own)] :=
      List.filter_append ..
    simp only [hcount.noReset, Bool.false_eq_true, if_false, hsplit]
    rw [List.nil_append] at hcount
    by_cases hyes : own.IsYes
    · rw [yesResults_cons_of_yes [] hyes, if_pos (show own.rpc_status = .ok ∧ own.voteTime ≠ 0 from hyes)]
      exact hcount.add (ubik_host, own)
    · rw [yesResults_cons_of_not_yes [] hyes, if_neg (show ¬(own.rpc_status = .ok ∧ own.voteTime ≠ 0) from hyes)]
      simpa [yesResults] using hcount

theorem ubeacon_wait_for_votes_counts (ubik_host : Server) {servers : List (Server × BeaconArgs)} (own : BeaconArgs)
    (hskew : ∀ server ∈ servers, server.2.rpc_status ≠ .uskewed) :
    (ubeacon_wait_for_votes ubik_host servers own).Counts (yesResults (servers ++ [(ubik_host, own)])) := by
  have hloop : ∀ count, count.reset = false → (countVotes servers count).reset = false := by
    induction servers with
    | nil => exact fun _ h => h
    | cons server servers ih =>
      intro count hcount
      have hrest := ih fun server hmem => hskew server (List.mem_cons_of_mem _ hmem)
      have hhead := hskew server (List.mem_cons_self ..)
      obtain ⟨ts, args⟩ := server
      rw [countVotes]
      cases hstatus : args.rpc_status with
      | uskewed => exact absurd hstatus hhead
      | failed => exact hrest count hcount
      | ok =>
        simp only
        split
        · exact hrest count hcount
        · exact hrest _ hcount
  rcases ubeacon_wait_for_votes_cases ubik_host servers own with hreset | hcount
  · have hnone : (ubeacon_wait_for_votes ubik_host servers own).reset = false := by
      unfold ubeacon_wait_for_votes
      simp only [hloop .start rfl, Bool.false_eq_true, if_false]
      split
      · exact hloop .start rfl
      · exact hloop .start rfl
    rw [hreset] at hnone
    cases hnone
  · exact hcount

def addrs (servers : List (Server × BeaconArgs)) : List Addr := servers.map fun server => server.1.addr

theorem VoteCount.Counts.weight_eq {count : VoteCount} {votes : List (Server × BeaconArgs)} (hcount : count.Counts votes)
    {magic : Addr} (hmagic : ∀ server ∈ votes, server.1.magic = decide (server.1.addr = magic))
    (hnodup : (addrs votes).Nodup) : count.yesVotes = lib.chairVotes magic (addrs votes).toFinset := by
  have hweight : (votes.map fun server => server.1.weight) =
      (addrs votes).map fun v => 2 + if v = magic then 1 else 0 := by
    rw [addrs, List.map_map]
    refine List.map_congr_left fun server hmem => ?_
    simp only [Server.weight, Function.comp_apply, hmagic server hmem, decide_eq_true_eq]
    split <;> rfl
  rw [hcount.weight, hweight, ← List.sum_toFinset _ hnodup]
  simp only [sum_add_distrib, sum_const, smul_eq_mul, sum_ite_eq', lib.chairVotes]
  omega

end dce.ubik
