import Dce.Ubik.Phys

namespace dce.ubik

/-- The statics of `vote.c` that decide how a server votes. -/
structure Voter where
  ubik_lastYesTime : ℕ := 0
  lastYesHost : Addr := noHost
  lastYesClaim : ℕ := 0
  lastYesState : Bool := false
  lowestTime : ℕ := 0
  lowestHost : Addr := noHost
  syncTime : ℕ := 0
  syncHost : Addr := 0
  ubik_dbVersion : Version := ⟨0, 0⟩
  ubik_dbTid : Tid := ⟨0, 0⟩
  deriving DecidableEq, Repr

/-- `uvote_Init` on a process that has just started: the statics have their
initial values and the server pretends to have just voted for someone else. -/
def uvote_Init (now : ℕ) : Voter := { ubik_lastYesTime := now }

/-- `uvote_ResetState`. The last version and transaction heard of are kept. -/
def uvote_ResetState (v : Voter) (now : ℕ) : Voter :=
  { v with
    ubik_lastYesTime := now
    lastYesHost := noHost
    lastYesClaim := 0
    lastYesState := false
    lowestTime := 0
    lowestHost := noHost
    syncTime := 0
    syncHost := 0 }

/-- `uvote_ShouldIRun` of the server whose address is `self`. -/
def uvote_ShouldIRun (self : Addr) (v : Voter) (now : ℕ) : Bool :=
  if BIGTIME + v.ubik_lastYesTime < now then true
  else if v.lastYesState && v.lastYesHost != self then false
  else if v.lastYesHost < self then false
  else true

/-- What the clock tests at the head of `SUBIKVOTE_Beacon` decide. -/
inductive SkewTest where
  /-- The call goes on. -/
  | passed
  /-- The call returns `USKEWED`. -/
  | skewed
  /-- The call runs `ubik_ResetState` and returns `USKEWED`. -/
  | skewedReset
  deriving DecidableEq, Repr

/-- The clock tests of `SUBIKVOTE_Beacon`. They run without the ubik lock, on the
clock reading `now` the call took when it started. -/
def beaconSkewTest (v : Voter) (now astart : ℕ) : SkewTest :=
  if now > astart ∧ now - astart > MAXSKEW then .skewed
  else if astart > now ∧ astart - now > MAXSKEW then .skewedReset
  else if v.ubik_lastYesTime > now then .skewedReset
  else if v.ubik_lastYesTime > astart ∧ v.ubik_lastYesTime - astart > MAXSKEW then .skewed
  else .passed

/-- `SUBIKVOTE_Beacon` refreshing the lowest host heard of, first from the caller
and then from the server itself. -/
def noteLowestHost (self otherHost : Addr) (now : ℕ) (v : Voter) : Voter :=
  let v := if otherHost ≤ v.lowestHost ∨ v.lowestTime + BIGTIME < now
    then { v with lowestTime := now, lowestHost := otherHost } else v
  if self ≤ v.lowestHost ∨ v.lowestTime + BIGTIME < now
    then { v with lowestTime := now, lowestHost := self } else v

/-- `SUBIKVOTE_Beacon` refreshing and timing out the sync site heard of. -/
def noteSyncHost (otherHost : Addr) (astate : Bool) (now : ℕ) (v : Voter) : Voter :=
  let v := if astate ∧ v.syncTime ≤ now then { v with syncHost := otherHost, syncTime := now } else v
  if v.syncTime + BIGTIME < now then { v with syncHost := 0, syncTime := 0 } else v

/-- A caller that is not sync site is refused while a lower host or another sync
site has been heard of. -/
def refusesCandidate (otherHost : Addr) (astate : Bool) (now : ℕ) (v : Voter) : Bool :=
  !astate && (v.lowestHost != otherHost && decide (v.lowestTime + BIGTIME ≥ now) ||
    v.syncHost != 0 && v.syncHost != otherHost)

/-- The test of the promise: no second host within `BIGTIME`, and neither
`ubik_lastYesTime` nor `lastYesClaim` goes backwards. -/
def mayVoteFor (otherHost : Addr) (now astart : ℕ) (v : Voter) : Prop :=
  v.ubik_lastYesTime ≤ now ∧ v.lastYesClaim ≤ astart ∧
    (v.ubik_lastYesTime + BIGTIME < now ∨ otherHost = v.lastYesHost)

instance (otherHost : Addr) (now astart : ℕ) (v : Voter) : Decidable (mayVoteFor otherHost now astart v) :=
  inferInstanceAs (Decidable (_ ∧ _ ∧ _))

def recordYes (otherHost : Addr) (astate : Bool) (now astart : ℕ) (avers : Version) (atid : Tid) (v : Voter) : Voter :=
  { v with
    ubik_lastYesTime := now
    lastYesClaim := astart
    lastYesHost := otherHost
    lastYesState := astate
    ubik_dbVersion := avers
    ubik_dbTid := atid }

/-- The part of `SUBIKVOTE_Beacon` that runs under the ubik lock. The second
component is `voteTime`, which is `0` for a refusal. A yes vote also runs
`urecovery_CheckTid` on `atid`. -/
def beaconVote (self otherHost : Addr) (astate : Bool) (now astart : ℕ) (avers : Version) (atid : Tid) (v : Voter) :
    Voter × ℕ :=
  let v := noteSyncHost otherHost astate now (noteLowestHost self otherHost now v)
  if refusesCandidate otherHost astate now v then (v, 0)
  else if mayVoteFor otherHost now astart v then (recordYes otherHost astate now astart avers atid v, now)
  else (v, 0)

/-- The statics that carry the promise to the last host voted for. -/
structure SamePromise (v w : Voter) : Prop where
  time : w.ubik_lastYesTime = v.ubik_lastYesTime
  host : w.lastYesHost = v.lastYesHost
  claim : w.lastYesClaim = v.lastYesClaim

theorem noteLowestHost_promise (self otherHost : Addr) (now : ℕ) (v : Voter) :
    SamePromise v (noteLowestHost self otherHost now v) := by
  unfold noteLowestHost
  constructor <;> dsimp only <;> split <;> split <;> rfl

theorem noteSyncHost_promise (otherHost : Addr) (astate : Bool) (now : ℕ) (v : Voter) :
    SamePromise v (noteSyncHost otherHost astate now v) := by
  unfold noteSyncHost
  constructor <;> dsimp only <;> split <;> split <;> rfl

theorem le_astart_of_beaconSkewTest {v : Voter} {now astart : ℕ} (hpassed : beaconSkewTest v now astart = .passed) :
    now ≤ astart + MAXSKEW := by
  unfold beaconSkewTest at hpassed
  by_contra hlate
  have hskewed : now > astart ∧ now - astart > MAXSKEW := ⟨by omega, by omega⟩
  simp [hskewed] at hpassed

theorem beaconVote_cases (self otherHost : Addr) (astate : Bool) (now astart : ℕ) (avers : Version) (atid : Tid)
    (v : Voter) :
    (mayVoteFor otherHost now astart v ∧
      (beaconVote self otherHost astate now astart avers atid v).2 = now ∧
      (beaconVote self otherHost astate now astart avers atid v).1.ubik_lastYesTime = now ∧
      (beaconVote self otherHost astate now astart avers atid v).1.lastYesHost = otherHost) ∨
    ((beaconVote self otherHost astate now astart avers atid v).2 = 0 ∧
      SamePromise v (beaconVote self otherHost astate now astart avers atid v).1) := by
  have hlow := noteLowestHost_promise self otherHost now v
  have hsync := noteSyncHost_promise otherHost astate now (noteLowestHost self otherHost now v)
  have hsame : SamePromise v (noteSyncHost otherHost astate now (noteLowestHost self otherHost now v)) :=
    ⟨hsync.time.trans hlow.time, hsync.host.trans hlow.host, hsync.claim.trans hlow.claim⟩
  unfold beaconVote
  dsimp only
  split
  · exact Or.inr ⟨rfl, hsame⟩
  · split
    · next hmay =>
      refine Or.inl ⟨?_, rfl, rfl, rfl⟩
      unfold mayVoteFor at hmay ⊢
      rw [hsame.time, hsame.host, hsame.claim] at hmay
      exact hmay
    · exact Or.inr ⟨rfl, hsame⟩

end dce.ubik
