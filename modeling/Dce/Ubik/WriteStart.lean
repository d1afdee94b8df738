import Dce.Lib.System
import Dce.Ubik.Beacon
import Dce.Ubik.Relabel

open lib

namespace dce.ubik.starting

/-- What a server knows of the election, of its recovery and of its write transactions. -/
structure Site where
  now : ℕ := 0
  beacon : Candidate := {}
  /-- The bits of `urecovery_state` that a start depends on. -/
  RECFOUNDDB : Bool := false
  RECHAVEDB : Bool := false
  RECLABELDB : Bool := false
  lastYesState : Bool := false
  lastYesClaim : ℕ := 0
  ubik_dbVersion : ubik_version := ⟨0, 0⟩
  /-- `ubik_dbase->version`. -/
  version : ubik_version := ⟨0, 0⟩
  /-- `DBWRITING`. -/
  writing : Bool := false
  /-- The calls of `BeginTrans` that sleep until there is no write transaction, and those of them that were woken up. -/
  asleep : ℕ := 0
  woken : ℕ := 0
  /-- For each call of `udisk_begin` for a write transaction, whether this was then the sync site and `urecovery_AllBetter`
  held. This is for the specification. -/
  starts : List Bool := []
  deriving DecidableEq, Repr

variable (nServers : ℕ) (s : Site)

namespace Site

def urecovery_ResetState : Site := { s with RECFOUNDDB := false, RECHAVEDB := false, RECLABELDB := false }

/-- `ubeacon_AmSyncSite` with its call of `urecovery_ResetState`. -/
def amSyncSite : Bool × Site :=
  let answer := ubeacon_AmSyncSite nServers s.beacon s.now
  let s := { s with beacon := answer.2 }
  (answer.1, if answer.1 then s else s.urecovery_ResetState)

def uvote_CheckSyncSite : Bool := s.lastYesState && decide (s.now ≤ SMALLTIME + s.lastYesClaim)

/-- `urecovery_AllBetter` for a caller that is not content with any database. -/
def urecovery_AllBetter : Bool × Site :=
  let answer := s.amSyncSite nServers
  let s := answer.2
  if answer.1 && s.RECLABELDB then (true, s)
  else (s.uvote_CheckSyncSite && decide (vcmp s.ubik_dbVersion s.version = 0), s)

/-- `udisk_begin` for a write transaction; `ok` tells whether the start is logged. -/
def udisk_begin (ok : Bool) : Site :=
  { s with
    writing := ok
    starts := ((s.amSyncSite nServers).1 && (s.urecovery_AllBetter nServers).1) :: s.starts }

/-- `BeginTrans` of a write transaction from the loop on that waits for the other one. -/
def startWrite (ok : Bool) : Site :=
  if s.writing then { s with asleep := s.asleep + 1 }
  else
    let answer := s.amSyncSite nServers
    if answer.1 then answer.2.udisk_begin nServers ok else answer.2

/-- `BeginTrans` of a write transaction once it has the version lock. -/
def BeginTrans (ok : Bool) : Site :=
  let answer := s.urecovery_AllBetter nServers
  if answer.1 then answer.2.startWrite nServers ok else answer.2

/-- `osi_Wakeup (&dbase->flags)`. -/
def wakeup : Site := { s with asleep := 0, woken := s.woken + s.asleep }

/-- What `ubeacon_Interact` makes of a round of votes. -/
def round (count : VoteCount) : Site :=
  let s := { s with beacon := decideElection nServers count s.beacon }
  if count.yesVotes > nServers then s else s.urecovery_ResetState

def ubik_ResetState : Site :=
  { s.urecovery_ResetState with beacon := ubeacon_ResetState s.beacon, lastYesState := false, lastYesClaim := 0 }

end Site

/-- What the threads of a server do while they hold both locks or cannot be told from such as do. -/
inductive Step where
  | tick
  | BeginTrans (ok : Bool)
  /-- A call that was woken up has the version lock again. -/
  | goesOn (ok : Bool)
  | udisk_commit
  | udisk_end
  /-- The end of a read transaction, which wakes up the writers too. -/
  | endRead
  | round (count : VoteCount)
  /-- A vote for a candidate that claims to be sync site or not. -/
  | vote (lastYesClaim : ℕ) (lastYesState : Bool) (ubik_dbVersion : ubik_version)
  | amSyncSite
  | ubik_ResetState
  /-- The recovery thread has found the best database of a quorum. -/
  | foundDb
  /-- It has that database, which may be another one than before. -/
  | haveDb (version : ubik_version)
  /-- It gives the database a new label, which may fail on the disk. -/
  | labelDb (epoch : Long) (labelled : Bool)
  deriving DecidableEq, Repr

def Site.step : Step → Option Site
  | .tick => some { s with now := s.now + 1 }
  | .BeginTrans ok => some (s.BeginTrans nServers ok)
  | .goesOn ok => if s.woken = 0 then none else some { s.startWrite nServers ok with woken := s.woken - 1 }
  | .udisk_commit => if s.writing then some { s with version := { s.version with counter := s.version.counter + 1 } } else none
  | .udisk_end => if s.writing then some { s with writing := false }.wakeup else none
  | .endRead => some s.wakeup
  | .round count => some (s.round nServers count)
  | .vote lastYesClaim lastYesState ubik_dbVersion => some { s with lastYesClaim, lastYesState, ubik_dbVersion }
  | .amSyncSite => some (s.amSyncSite nServers).2
  | .ubik_ResetState => some s.ubik_ResetState
  | .foundDb => if s.RECFOUNDDB then none else some { s with RECFOUNDDB := true }
  | .haveDb version => if s.RECFOUNDDB && !s.RECHAVEDB then some { s with RECHAVEDB := true, version } else none
  | .labelDb epoch labelled =>
    if s.RECHAVEDB && !s.RECLABELDB then some { s with RECLABELDB := labelled, version := ⟨epoch, 1⟩ } else none

def server : System Site Step where
  init s := s = {}
  step := Site.step nServers

/-- Every write transaction was started by the sync site with `urecovery_AllBetter`. -/
def StartsRecovered : Prop := ∀ start ∈ s.starts, start = true

/-- A writer that waited goes on while there is still another, on a server that is not the sync site any more, or once
`urecovery_AllBetter` holds. -/
def goesOnRecovered : Step → Prop
  | .goesOn _ => s.writing = true ∨ (s.amSyncSite nServers).1 = false ∨ (s.urecovery_AllBetter nServers).1 = true
  | _ => True

instance : ∀ i, Decidable (goesOnRecovered nServers s i)
  | .goesOn _ => inferInstanceAs (Decidable (_ ∨ _ ∨ _))
  | .tick | .BeginTrans _ | .udisk_commit | .udisk_end | .endRead | .round _ | .vote .. | .amSyncSite | .ubik_ResetState
  | .foundDb | .haveDb _ | .labelDb .. => isTrue trivial

section Starts

variable {nServers s} {s' : Site}

theorem ubeacon_AmSyncSite_cases (c : Candidate) (now : ℕ) :
    ubeacon_AmSyncSite nServers c now = (true, c) ∨ (ubeacon_AmSyncSite nServers c now).1 = false ∧
      (ubeacon_AmSyncSite nServers (ubeacon_AmSyncSite nServers c now).2 now).1 = false := by
  by_cases hone : nServers = 1
  · exact .inl (by simp [ubeacon_AmSyncSite, hone])
  by_cases hclaim : c.ubik_amSyncSite = false
  · exact .inr (by simp [ubeacon_AmSyncSite, hone, hclaim])
  by_cases htime : c.syncSiteUntil ≤ now
  · exact .inr (by simp [ubeacon_AmSyncSite, hone, hclaim, htime])
  · exact .inl (by simp [ubeacon_AmSyncSite, hone, hclaim, htime])

theorem amSyncSite_eq (hsync : (s.amSyncSite nServers).1 = true) : (s.amSyncSite nServers).2 = s := by
  rw [Site.amSyncSite]
  obtain heq | ⟨hnot, -⟩ := @ubeacon_AmSyncSite_cases nServers s.beacon s.now
  · rw [heq]
    rfl
  · exact absurd (hnot.symm.trans hsync) Bool.false_ne_true

theorem amSyncSite_again (hsync : (s.amSyncSite nServers).1 = false) :
    ((s.amSyncSite nServers).2.amSyncSite nServers).1 = false := by
  obtain heq | ⟨hnot, hagain⟩ := @ubeacon_AmSyncSite_cases nServers s.beacon s.now
  · exact absurd ((congrArg Prod.fst heq).symm.trans hsync).symm Bool.false_ne_true
  · rw [Site.amSyncSite, Site.amSyncSite]
    dsimp only
    rw [if_neg (by rw [hnot]; exact Bool.false_ne_true)]
    exact hagain

theorem starts_amSyncSite : (s.amSyncSite nServers).2.starts = s.starts := by
  rw [Site.amSyncSite]
  split <;> rfl

theorem AllBetter_snd : (s.urecovery_AllBetter nServers).2 = (s.amSyncSite nServers).2 := by
  rw [Site.urecovery_AllBetter]
  split <;> rfl

theorem starts_startWrite (hstarts : StartsRecovered s) (ok : Bool)
    (hgood : s.writing = true ∨ (s.amSyncSite nServers).1 = false ∨ (s.urecovery_AllBetter nServers).1 = true) :
    StartsRecovered (s.startWrite nServers ok) := by
  rw [Site.startWrite]
  by_cases hwriting : s.writing = true
  · rw [if_pos hwriting]
    exact hstarts
  · rw [if_neg hwriting]
    dsimp only
    by_cases hsync : (s.amSyncSite nServers).1 = true
    · have hbetter := (hgood.resolve_left hwriting).resolve_left (Bool.not_eq_false _ ▸ hsync)
      rw [if_pos hsync, amSyncSite_eq hsync]
      refine List.forall_mem_cons.mpr ⟨?_, hstarts⟩
      rw [hsync, hbetter]
      rfl
    · rw [if_neg hsync, StartsRecovered, starts_amSyncSite]
      exact hstarts

theorem starts_BeginTrans (hstarts : StartsRecovered s) (ok : Bool) : StartsRecovered (s.BeginTrans nServers ok) := by
  rw [Site.BeginTrans, AllBetter_snd]
  have hafter : StartsRecovered (s.amSyncSite nServers).2 := by
    rw [StartsRecovered, starts_amSyncSite]
    exact hstarts
  by_cases hbetter : (s.urecovery_AllBetter nServers).1 = true
  · rw [if_pos hbetter]
    by_cases hsync : (s.amSyncSite nServers).1 = true
    · rw [amSyncSite_eq hsync]
      exact starts_startWrite hstarts ok (.inr (.inr hbetter))
    · exact starts_startWrite hafter ok (.inr (.inl (amSyncSite_again (Bool.not_eq_true _ ▸ hsync))))
  · rw [if_neg hbetter]
    exact hafter

theorem StartsRecovered.step {i : Step} (hstarts : StartsRecovered s) (hallowed : goesOnRecovered nServers s i)
    (hstep : s.step nServers i = some s') : StartsRecovered s' := by
  cases i with
  | BeginTrans ok =>
    obtain rfl := Option.some.inj hstep
    exact starts_BeginTrans hstarts ok
  | goesOn ok =>
    rw [Site.step] at hstep
    obtain ⟨-, hstep⟩ := Option.ite_none_left_eq_some.mp hstep
    obtain rfl := Option.some.inj hstep
    exact starts_startWrite hstarts ok hallowed
  | foundDb =>
    rw [Site.step] at hstep
    obtain ⟨-, hstep⟩ := Option.ite_none_left_eq_some.mp hstep
    obtain rfl := Option.some.inj hstep
    exact hstarts
  | amSyncSite =>
    obtain rfl := Option.some.inj hstep
    rw [StartsRecovered, starts_amSyncSite]
    exact hstarts
  | round count =>
    obtain rfl := Option.some.inj hstep
    rw [Site.round]
    split <;> exact hstarts
  | udisk_commit | udisk_end | haveDb version | labelDb epoch labelled =>
    rw [Site.step] at hstep
    obtain ⟨-, hstep⟩ := Option.ite_none_right_eq_some.mp hstep
    obtain rfl := Option.some.inj hstep
    exact hstarts
  | tick | endRead | vote lastYesClaim lastYesState ubik_dbVersion | ubik_ResetState =>
    obtain rfl := Option.some.inj hstep
    exact hstarts

end Starts

/-- In a run in which no writer goes on from its wait on a sync site that has not finished its recovery, every write transaction
starts on the sync site with `urecovery_AllBetter`. -/
theorem writes_start_recovered {nServers : ℕ} {s : Site}
    (hreach : ((server nServers).restrict (goesOnRecovered nServers)).Reachable s) : StartsRecovered s := by
  refine hreach.invariant (P := StartsRecovered) (fun s hinit => ?_) fun s i s' hstarts hstep => ?_
  · obtain rfl : s = {} := hinit
    exact fun start hstart => absurd hstart List.not_mem_nil
  · obtain ⟨hallowed, hstep⟩ := System.restrict_step hstep
    exact hstarts.step hallowed hstep

def elected (voteTime : ℕ) : VoteCount := ⟨4, voteTime, false⟩

def twoWriters : List Step :=
  [.round (elected 0), .foundDb, .haveDb ⟨1, 1⟩, .labelDb 2 true, .BeginTrans true, .BeginTrans true]

theorem writes_start_recovered_twoWriters : ∃ s : Site, s.starts.length = 2 ∧ StartsRecovered s := by
  obtain ⟨s, hreach, hlength⟩ := ((server 3).restrict (goesOnRecovered 3)).exists_reachable_of_exec (s := {})
    (twoWriters ++ [.udisk_commit, .udisk_end, .goesOn true]) (P := fun s => s.starts.length = 2) rfl (by decide)
  exact ⟨s, of_decide_eq_true hlength, writes_start_recovered hreach⟩

/-- The sync site loses its votes and gets them again while the second writer waits: it goes on before the recovery does. -/
theorem write_starts_unrecovered : ¬ ∀ (nServers : ℕ) (s : Site), (server nServers).Reachable s → StartsRecovered s := by
  intro hall
  obtain ⟨s, hreach, hunrecovered⟩ := (server 3).exists_reachable_of_exec (s := {})
    (twoWriters ++ [.round .start, .round (elected 0), .udisk_end, .goesOn true])
    (P := fun s => s.starts.contains false) rfl (by decide)
  exact absurd (hall 3 s hreach false (List.contains_iff_mem.mp hunrecovered)) Bool.false_ne_true

section Sleeps

variable {nServers s} {s' : Site}

/-- Calls sleep only as long as there is a write transaction to wait for. -/
def SleepsBehindWriter (s : Site) : Prop := s.asleep ≠ 0 → s.writing = true

theorem sleep_amSyncSite : (s.amSyncSite nServers).2.asleep = s.asleep ∧ (s.amSyncSite nServers).2.writing = s.writing := by
  rw [Site.amSyncSite]
  split <;> exact ⟨rfl, rfl⟩

theorem SleepsBehindWriter.amSyncSite (h : SleepsBehindWriter s) : SleepsBehindWriter (s.amSyncSite nServers).2 := by
  rw [SleepsBehindWriter, sleep_amSyncSite.1, sleep_amSyncSite.2]
  exact h

theorem SleepsBehindWriter.startWrite (h : SleepsBehindWriter s) (ok : Bool) : SleepsBehindWriter (s.startWrite nServers ok) := by
  rw [Site.startWrite]
  split
  · next hwriting => exact fun _ => hwriting
  · next hidle =>
    -- nobody sleeps, and the start of a transaction puts nobody to sleep
    have hnone : (s.amSyncSite nServers).2.asleep = 0 := by
      rw [sleep_amSyncSite.1]
      exact not_not.mp fun hasleep => hidle (h hasleep)
    dsimp only
    split <;> exact fun hasleep => absurd hnone hasleep

theorem SleepsBehindWriter.step {i : Step} (h : SleepsBehindWriter s) (hstep : s.step nServers i = some s') :
    SleepsBehindWriter s' := by
  cases i with
  | BeginTrans ok =>
    obtain rfl := Option.some.inj hstep
    rw [Site.BeginTrans, AllBetter_snd]
    split
    · exact h.amSyncSite.startWrite ok
    · exact h.amSyncSite
  | goesOn ok =>
    obtain ⟨-, hstep⟩ := Option.ite_none_left_eq_some.mp hstep
    obtain rfl := Option.some.inj hstep
    exact h.startWrite ok
  | foundDb =>
    obtain ⟨-, hstep⟩ := Option.ite_none_left_eq_some.mp hstep
    obtain rfl := Option.some.inj hstep
    exact h
  | amSyncSite =>
    obtain rfl := Option.some.inj hstep
    exact h.amSyncSite
  | round count =>
    obtain rfl := Option.some.inj hstep
    rw [Site.round]
    split <;> exact h
  | udisk_end =>
    obtain ⟨-, hstep⟩ := Option.ite_none_right_eq_some.mp hstep
    obtain rfl := Option.some.inj hstep
    exact fun hasleep => absurd rfl hasleep
  | endRead =>
    obtain rfl := Option.some.inj hstep
    exact fun hasleep => absurd rfl hasleep
  | udisk_commit | haveDb version | labelDb epoch labelled =>
    obtain ⟨-, hstep⟩ := Option.ite_none_right_eq_some.mp hstep
    obtain rfl := Option.some.inj hstep
    exact h
  | tick | vote lastYesClaim lastYesState ubik_dbVersion | ubik_ResetState =>
    obtain rfl := Option.some.inj hstep
    exact h

end Sleeps

/-- No wakeup is lost: whatever happens to the election and the recovery, when there is no write transaction no call sleeps for
the end of one. -/
theorem no_writer_left_asleep (nServers : ℕ) (s : Site) (hreach : (server nServers).Reachable s) (hidle : s.writing = false) :
    s.asleep = 0 := by
  have hsleeps : SleepsBehindWriter s := by
    refine hreach.invariant (P := SleepsBehindWriter) (fun s hinit => ?_) fun _ _ _ h hstep => h.step hstep
    obtain rfl : s = {} := hinit
    exact fun hasleep => absurd rfl hasleep
  exact not_not.mp fun hasleep => Bool.false_ne_true (hidle.symm.trans (hsleeps hasleep))

theorem no_writer_left_asleep_twoWriters : ∃ s : Site, s.woken = 1 ∧ s.asleep = 0 := by
  obtain ⟨s, hreach, hs⟩ := (server 3).exists_reachable_of_exec (s := {}) (twoWriters ++ [.udisk_commit, .udisk_end])
    (P := fun s => decide (s.woken = 1 ∧ s.writing = false)) rfl (by decide)
  obtain ⟨hwoken, hidle⟩ := of_decide_eq_true hs
  exact ⟨s, hwoken, no_writer_left_asleep 3 s hreach hidle⟩

end dce.ubik.starting
