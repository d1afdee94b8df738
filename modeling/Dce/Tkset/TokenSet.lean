import Mathlib.Data.Int.Basic
import Mathlib.Data.List.Nodup
import Dce.Lib.System

open lib

namespace dce.tkset

def TKSET_MAXRETRIES : ℤ := 4

def tkset_HIGHRETRY (rc : ℤ) : Bool := rc > TKSET_MAXRETRIES

/-- `struct tkset_set`, as far as its life and its place in the lists go. Sets are named by the number of their creation. -/
structure TokenSet where
  retryCount : ℤ
  refCount : ℕ
  /-- `TKSET_SET_DELETED`. -/
  deleted : Bool
  deriving Inhabited

/-- The two addresses on which creators sleep. -/
inductive Channel where
  | tkset_loopingSets
  | tkset_easyWaiting
  deriving DecidableEq

/-- How far the `tkset_Create` of a set has come. -/
inductive Phase where
  | absent
  /-- Woken up, before it has the lock again. -/
  | ready
  | asleep (channel : Channel)
  | started
  deriving DecidableEq

structure State where
  sets : ℕ → TokenSet
  created : ℕ
  phase : ℕ → Phase
  tkset_allSets : List ℕ
  tkset_loopingSets : List ℕ
  tkset_easyWaiting : Bool
  tkset_serial : Bool
  /-- How many revokers sleep with a reference to the set. -/
  revokers : ℕ → ℕ
  /-- The sets with high retry counts in the order in which they were queued, and in that in which they were started. -/
  queued : List ℕ
  starts : List ℕ

namespace State

def high (s : State) (setp : ℕ) : Bool := tkset_HIGHRETRY (s.sets setp).retryCount

/-- `osi_Wakeup`. -/
def wakeup (s : State) (channel : Channel) : State :=
  { s with phase := fun setp => if s.phase setp = .asleep channel then .ready else s.phase setp }

/-- `osi_SleepW`. -/
def sleep (s : State) (setp : ℕ) (channel : Channel) : State :=
  { s with phase := Function.update s.phase setp (.asleep channel) }

/-- The end of `tkset_Create`: the set comes into `tkset_allSets`. -/
def start (s : State) (setp : ℕ) : State :=
  { s with
    tkset_allSets := setp :: s.tkset_allSets
    phase := Function.update s.phase setp .started }

/-- The body of the loop of `tkset_Create`. -/
def attempt (s : State) (setp : ℕ) : State :=
  if s.high setp then
    if s.tkset_loopingSets.head? = some setp ∧ s.tkset_allSets = [] then
      { s.start setp with
        tkset_loopingSets := s.tkset_loopingSets.tail
        starts := s.starts ++ [setp] }
    else s.sleep setp .tkset_loopingSets
  else if s.tkset_serial = false then s.start setp
  else { s with tkset_easyWaiting := true }.sleep setp .tkset_easyWaiting

/-- `tkset_Create` up to its first attempt. -/
def enter (s : State) (retryCount : ℤ) : State :=
  let setp := s.created
  let s := { s with
    sets := Function.update s.sets setp ⟨retryCount, 1, false⟩
    created := s.created + 1
    phase := Function.update s.phase setp .ready }
  if tkset_HIGHRETRY retryCount then
    { s with
      tkset_loopingSets := s.tkset_loopingSets ++ [setp]
      tkset_serial := true
      queued := s.queued ++ [setp] }
  else s

/-- `tkset_Zap` until it releases the lock. -/
def tkset_Zap (s : State) (asetp : ℕ) : State :=
  let s := { s with tkset_allSets := s.tkset_allSets.erase asetp }
  if s.tkset_allSets = [] then
    if s.tkset_loopingSets ≠ [] then s.wakeup .tkset_loopingSets
    else
      let s := { s with tkset_serial := false }
      if s.tkset_easyWaiting then { s with tkset_easyWaiting := false }.wakeup .tkset_easyWaiting else s
  else s

def setRefCount (s : State) (asetp : ℕ) (refCount : ℕ) : State :=
  { s with sets := Function.update s.sets asetp { s.sets asetp with refCount := refCount } }

def tkset_nlrele (s : State) (asetp : ℕ) : State :=
  let s := s.setRefCount asetp ((s.sets asetp).refCount - 1)
  if (s.sets asetp).refCount = 0 ∧ (s.sets asetp).deleted = true then s.tkset_Zap asetp else s

def tkset_Delete (s : State) (asetp : ℕ) : State :=
  if (s.sets asetp).refCount = 1 then s.tkset_Zap asetp
  else
    { s with sets := Function.update s.sets asetp { s.sets asetp with deleted := true } }.tkset_nlrele asetp

end State

/-- What happens between two releases of `tkset_glock`. -/
inductive Event where
  | tkset_Create (retryCount : ℤ)
  /-- A creator that is awake gets the lock. -/
  | resume (setp : ℕ)
  /-- A creator wakes up spuriously. -/
  | wake (setp : ℕ)
  | tkset_Delete (asetp : ℕ)
  /-- `tkset_TokenIsRevoked` sleeps on a set. -/
  | revoke (tsetp : ℕ)
  /-- It has slept, and gives its reference up. -/
  | revoked (tsetp : ℕ)

namespace State

def step (s : State) : Event → Option State
  | .tkset_Create retryCount => some ((s.enter retryCount).attempt s.created)
  | .resume setp => if s.phase setp = .ready then some (s.attempt setp) else none
  | .wake setp =>
    match s.phase setp with
    | .asleep _ => some { s with phase := Function.update s.phase setp .ready }
    | _ => none
  | .tkset_Delete asetp =>
    if asetp ∈ s.tkset_allSets ∧ (s.sets asetp).deleted = false then some (s.tkset_Delete asetp) else none
  | .revoke tsetp =>
    if tsetp ∈ s.tkset_allSets ∧ (s.sets tsetp).deleted = false then
      some { s.setRefCount tsetp ((s.sets tsetp).refCount + 1) with
        revokers := Function.update s.revokers tsetp (s.revokers tsetp + 1) }
    else none
  | .revoked tsetp =>
    if 0 < s.revokers tsetp then
      some ({ s with revokers := Function.update s.revokers tsetp (s.revokers tsetp - 1) }.tkset_nlrele tsetp)
    else none

def idle : State := ⟨fun _ => default, 0, fun _ => .absent, [], [], false, false, fun _ => 0, [], []⟩

end State

def tokenSets : System State Event where
  init s := s = State.idle
  step := State.step

end dce.tkset
