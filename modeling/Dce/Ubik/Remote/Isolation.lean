import Dce.Ubik.Remote.Calls

open lib

namespace dce.ubik

/-- The updates done by calls that carry `t` since the transaction `t` was begun, in
the order they were done. -/
def updatesSince (t : Tid) : List Event → List Update
  | [] => []
  | e :: earlier =>
    if e.atid = t then
      match e.effect with
      | .begun => []
      | .updated update => updatesSince t earlier ++ [update]
      | _ => updatesSince t earlier
    else updatesSince t earlier

/-- A call has an effect on its own transaction only, and commits the updates of its
own calls. What it finds of another transaction it may end: `urecovery_CheckTid`
ends one that is older or of another epoch, `SUBIKDISK_Begin` ends any. -/
def EventSound (earlier : List Event) (e : Event) : Prop :=
  match e.effect with
  | .ended reason => e.target = e.atid ∨ reason = .CheckTid ∧ e.target.endedBy e.atid = true ∨ reason = .Begin
  | .committed updates => e.target = e.atid ∧ updates = updatesSince e.atid earlier
  | _ => e.target = e.atid

def Isolated : List Event → Prop
  | [] => True
  | e :: earlier => EventSound earlier e ∧ Isolated earlier

/-- A call does not find a transaction that is newer than its own, and a call that
has slept finds its own transaction again. -/
def timely (s : Replica) : ReplicaStep → Bool
  | .resume i _ =>
    match s.waiting[i]?, s.ubik_currentTrans with
    | some (.versionLock call), some tt =>
      call.op.begins || decide (tt.tid = call.atid) || tt.tid.endedBy call.atid
    | some (.bulkRest atid _), some tt => decide (tt.tid = atid)
    | some (.lockWait _ atrans _ _), some tt => decide (tt.serial = atrans)
    | some (.versionLock _), none => true
    | some (.bulkRest _ _), none => false
    | some (.lockWait _ _ _ _), none => false
    | none, _ => true
  | _ => true

def timelyReplica : System Replica ReplicaStep := replica.restrict fun s i => timely s i = true

/-- The remote transaction holds the updates of its own calls. -/
structure Replica.Sound (s : Replica) : Prop where
  serial : ∀ tt, s.ubik_currentTrans = some tt → tt.serial < s.serials
  updates : ∀ tt, s.ubik_currentTrans = some tt → tt.updates = updatesSince tt.tid s.trace
  trace : Isolated s.trace

/-- Nobody but a new transaction takes the place of the remote transaction. -/
structure Replica.Frame (s s' : Replica) : Prop where
  serials : s.serials ≤ s'.serials
  waiting : s'.waiting = s.waiting
  current : ∀ tt', s'.ubik_currentTrans = some tt' →
    (∃ tt, s.ubik_currentTrans = some tt ∧ tt.serial = tt'.serial ∧ tt.tid = tt'.tid) ∨ s.serials ≤ tt'.serial

theorem Replica.Frame.refl (s : Replica) : s.Frame s := ⟨Nat.le_refl _, rfl, fun tt htt => Or.inl ⟨tt, htt, rfl, rfl⟩⟩

theorem Replica.Frame.trans {s s' s'' : Replica} (h' : s.Frame s') (h'' : s'.Frame s'') : s.Frame s'' where
  serials := Nat.le_trans h'.serials h''.serials
  waiting := h''.waiting.trans h'.waiting
  current tt'' htt'' := by
    rcases h''.current tt'' htt'' with ⟨tt', htt', hserial', htid'⟩ | hnew
    · rcases h'.current tt' htt' with ⟨tt, htt, hserial, htid⟩ | hnew
      · exact Or.inl ⟨tt, htt, hserial.trans hserial', htid.trans htid'⟩
      · exact Or.inr (by omega)
    · exact Or.inr (Nat.le_trans h'.serials hnew)

/-- A call asleep in `ulock_SetLock` sleeps for a transaction of its own. -/
def Waiting.Own (s : Replica) : Waiting → Prop
  | .lockWait atid atrans _ _ =>
    atrans < s.serials ∧ ∀ tt, s.ubik_currentTrans = some tt → tt.serial = atrans → tt.tid = atid
  | _ => True

variable {s s' : Replica} {outcome : Outcome} {atid : Tid} {tt : RemoteTrans} {w : Waiting} {io : ℕ}

theorem Waiting.Own.frame (hown : w.Own s) (hframe : s.Frame s') : w.Own s' := by
  cases w with
  | versionLock call => trivial
  | bulkRest atid bulk => trivial
  | lockWait atid atrans lock bulk =>
    obtain ⟨hlt, hown⟩ := hown
    refine ⟨Nat.lt_of_lt_of_le hlt hframe.serials, fun tt' htt' hserial => ?_⟩
    rcases hframe.current tt' htt' with ⟨tt, htt, hserial', htid⟩ | hnew
    · rw [← htid]
      exact hown tt htt (hserial'.trans hserial)
    · omega

theorem Waiting.Own.congr (hown : w.Own s) (hserials : s'.serials = s.serials)
    (hcurrent : s'.ubik_currentTrans = s.ubik_currentTrans) : w.Own s' := by
  cases w with
  | versionLock call => trivial
  | bulkRest atid bulk => trivial
  | lockWait atid atrans lock bulk => exact ⟨hserials ▸ hown.1, hcurrent ▸ hown.2⟩

theorem updatesSince_cons {t : Tid} {e : Event} (earlier : List Event)
    (he : e.atid = t → e.effect ≠ .begun ∧ ∀ update, e.effect ≠ .updated update) :
    updatesSince t (e :: earlier) = updatesSince t earlier := by
  rw [updatesSince]
  by_cases hatid : e.atid = t
  · rw [if_pos hatid]
    obtain ⟨hbegun, hupdated⟩ := he hatid
    cases heffect : e.effect with
    | begun => exact absurd heffect hbegun
    | updated update => exact absurd heffect (hupdated update)
    | _ => rfl
  · rw [if_neg hatid]

/-- The transaction is ended in a way that is by design. -/
def MayEnd (s : Replica) (atid : Tid) (reason : EndReason) : Prop :=
  ∀ tt, s.ubik_currentTrans = some tt →
    tt.tid = atid ∨ reason = .CheckTid ∧ tt.tid.endedBy atid = true ∨ reason = .Begin

theorem udisk_endRemote_spec {s : Replica} (hsound : s.Sound) {reason : EndReason}
    (hmay : MayEnd s atid reason) :
    (udisk_endRemote s atid reason).Sound ∧ s.Frame (udisk_endRemote s atid reason) ∧
      (udisk_endRemote s atid reason).ubik_currentTrans = none := by
  unfold udisk_endRemote
  cases hcurrent : s.ubik_currentTrans with
  | none => exact ⟨hsound, .refl s, hcurrent⟩
  | some tt =>
    exact ⟨⟨nofun, nofun, hmay tt hcurrent, hsound.trace⟩, ⟨Nat.le_refl _, rfl, nofun⟩, rfl⟩

theorem urecovery_CheckTidRemote_spec {s : Replica} (hsound : s.Sound) (atid : Tid) :
    (urecovery_CheckTidRemote s atid).Sound ∧ s.Frame (urecovery_CheckTidRemote s atid) ∧
      ∀ tt, (urecovery_CheckTidRemote s atid).ubik_currentTrans = some tt →
        s.ubik_currentTrans = some tt ∧ tt.tid.endedBy atid = false := by
  unfold urecovery_CheckTidRemote
  cases hcurrent : s.ubik_currentTrans with
  | none => exact ⟨hsound, .refl s, fun tt htt => by simp [hcurrent] at htt⟩
  | some tt =>
    by_cases hended : tt.tid.endedBy atid = true
    · simp only [if_pos hended]
      obtain ⟨hsound', hframe, hnone⟩ := udisk_endRemote_spec hsound (show MayEnd s atid .CheckTid from fun tt' htt' =>
        Or.inr (Or.inl ⟨rfl, by rw [← Option.some.inj (hcurrent.symm.trans htt')]; exact hended⟩))
      exact ⟨hsound', hframe, fun tt' htt' => by simp [hnone] at htt'⟩
    · simp only [if_neg hended]
      refine ⟨hsound, .refl s, fun tt' htt' => ⟨hcurrent.symm.trans htt', ?_⟩⟩
      rw [← Option.some.inj (hcurrent.symm.trans htt')]
      exact Bool.eq_false_iff.mpr hended

theorem remoteBegin_spec {s : Replica} (hsound : s.Sound) (atid : Tid) (io : ℕ) :
    (remoteBegin s atid io).1.Sound ∧ s.Frame (remoteBegin s atid io).1 := by
  obtain ⟨hchecked, hframe, _⟩ := urecovery_CheckTidRemote_spec hsound atid
  obtain ⟨hended, hframe', hnone⟩ := udisk_endRemote_spec hchecked
    fun _ _ => Or.inr (Or.inr rfl)
  have hall := hframe.trans hframe'
  unfold remoteBegin
  dsimp only
  split
  · exact ⟨hended, hall⟩
  · refine ⟨⟨?_, ?_, rfl, hended.trace⟩, ⟨Nat.le_trans hall.serials (Nat.le_succ _), hall.waiting, ?_⟩⟩
    · intro tt htt
      rw [← Option.some.inj htt]
      exact Nat.lt_succ_self _
    · intro tt htt
      rw [← Option.some.inj htt]
      simp [updatesSince]
    · intro tt htt
      rw [← Option.some.inj htt]
      exact Or.inr hall.serials

theorem remoteCommit_spec {s : Replica} (hsound : s.Sound) (hcurrent : s.ubik_currentTrans = some tt)
    (hown : tt.tid = atid) (io : ℕ) :
    (remoteCommit s tt atid io).1.Sound ∧ s.Frame (remoteCommit s tt atid io).1 := by
  have hserial := hsound.serial tt hcurrent
  have hupdates := hsound.updates tt hcurrent
  have hframe : ∀ tt', some { tt with done := true } = some tt' →
      (∃ old, s.ubik_currentTrans = some old ∧ old.serial = tt'.serial ∧ old.tid = tt'.tid) ∨ s.serials ≤ tt'.serial :=
    fun tt' htt' => Or.inl ⟨tt, hcurrent, by rw [← Option.some.inj htt'], by rw [← Option.some.inj htt']⟩
  unfold remoteCommit
  split
  · exact ⟨hsound, .refl s⟩
  · split
    · refine ⟨⟨fun tt' htt' => ?_, fun tt' htt' => ?_, hsound.trace⟩, ⟨Nat.le_refl _, rfl, hframe⟩⟩
      · rw [← Option.some.inj htt']
        exact hserial
      · rw [← Option.some.inj htt']
        exact hupdates
    · refine ⟨⟨fun tt' htt' => ?_, fun tt' htt' => ?_, ⟨hown, ?_⟩, hsound.trace⟩, ⟨Nat.le_refl _, rfl, hframe⟩⟩
      · rw [← Option.some.inj htt']
        exact hserial
      · rw [← Option.some.inj htt', updatesSince_cons _ fun _ => by simp]
        exact hupdates
      · rw [← hown]
        exact hupdates

theorem addLock_spec {s : Replica} (hsound : s.Sound) {atrans : ℕ}
    (hown : ∀ tt, s.ubik_currentTrans = some tt → tt.serial = atrans → tt.tid = atid) (lock : Lock) :
    (addLock s atid atrans lock).Sound ∧ s.Frame (addLock s atid atrans lock) := by
  unfold addLock
  cases hcurrent : s.ubik_currentTrans with
  | none => exact ⟨hsound, .refl s⟩
  | some tt =>
    by_cases hserial : tt.serial = atrans
    · simp only [if_pos hserial]
      refine ⟨⟨fun tt' htt' => ?_, fun tt' htt' => ?_, hown tt hcurrent hserial, hsound.trace⟩,
        ⟨Nat.le_refl _, rfl, fun tt' htt' => Or.inl ⟨tt, hcurrent, ?_, ?_⟩⟩⟩
      · rw [← Option.some.inj htt']
        exact hsound.serial tt hcurrent
      · rw [← Option.some.inj htt', updatesSince_cons _ fun _ => by simp]
        exact hsound.updates tt hcurrent
      · rw [← Option.some.inj htt']
      · rw [← Option.some.inj htt']
    · simp only [if_neg hserial]
      exact ⟨hsound, .refl s⟩

theorem addUpdate_spec {s : Replica} (hsound : s.Sound) (hcurrent : s.ubik_currentTrans = some tt)
    (hown : tt.tid = atid) (update : Update) :
    (addUpdate s tt atid update).Sound ∧ s.Frame (addUpdate s tt atid update) := by
  unfold addUpdate
  refine ⟨⟨fun tt' htt' => ?_, fun tt' htt' => ?_, hown, hsound.trace⟩,
    ⟨Nat.le_refl _, rfl, fun tt' htt' => Or.inl ⟨tt, hcurrent, ?_, ?_⟩⟩⟩
  · rw [← Option.some.inj htt']
    exact hsound.serial tt hcurrent
  · rw [← Option.some.inj htt']
    simp only [updatesSince, hown, if_true]
    rw [hsound.updates tt hcurrent, hown]
  · rw [← Option.some.inj htt']
  · rw [← Option.some.inj htt']

/-- The remote transaction, if there is one, is that of the call. -/
def OwnCurrent (s : Replica) (atid : Tid) : Prop := ∀ tt, s.ubik_currentTrans = some tt → tt.tid = atid

/-- What a part of a call leaves: a sound replica, in which a call that sleeps does so
for its own transaction. -/
structure Outcome.Sound (s s' : Replica) (outcome : Outcome) : Prop where
  sound : s'.Sound
  frame : s.Frame s'
  own : ∀ w, outcome = .sleeps w → w.Own s'

theorem Outcome.Sound.trans {s s' s'' : Replica} (hframe : s.Frame s')
    (h : Outcome.Sound s' s'' outcome) : Outcome.Sound s s'' outcome := ⟨h.sound, hframe.trans h.frame, h.own⟩

theorem Outcome.Sound.returns (hsound : s'.Sound) (hframe : s.Frame s') (code : UCode) :
    Outcome.Sound s s' (.returns code) := ⟨hsound, hframe, nofun⟩

theorem bulkLoop_spec {bulk : List BulkOp} (hsound : s.Sound)
    (hown : OwnCurrent s atid) (hrun : bulkLoop s atid io bulk = some (s', outcome)) : Outcome.Sound s s' outcome := by
  induction bulk generalizing s io with
  | nil =>
    obtain ⟨rfl, rfl⟩ := Prod.mk.inj (Option.some.inj hrun)
    exact .returns hsound (.refl _) _
  | cons op bulk ih =>
    rw [bulkLoop] at hrun
    cases hcurrent : s.ubik_currentTrans with
    | none => simp [hcurrent] at hrun
    | some tt =>
      have htid : tt.tid = atid := hown tt hcurrent
      simp only [hcurrent] at hrun
      cases op with
      | UBULK_BEGIN =>
        obtain ⟨rfl, rfl⟩ := Prod.mk.inj (Option.some.inj hrun)
        exact .returns hsound (.refl _) _
      | unknown =>
        obtain ⟨rfl, rfl⟩ := Prod.mk.inj (Option.some.inj hrun)
        exact .returns hsound (.refl _) _
      | UBULK_UPDATE update =>
        obtain ⟨hadded, hframe⟩ := addUpdate_spec hsound hcurrent htid update
        have hown' : OwnCurrent (addUpdate s tt atid update) atid := fun tt' htt' => by
          rw [← Option.some.inj htt']
          exact htid
        simp only at hrun
        split at hrun
        · obtain ⟨rfl, rfl⟩ := Prod.mk.inj (Option.some.inj hrun)
          exact .returns hsound (.refl _) _
        · split at hrun
          · obtain ⟨rfl, rfl⟩ := Prod.mk.inj (Option.some.inj hrun)
            exact .returns hsound (.refl _) _
          · obtain ⟨rfl, rfl⟩ := Prod.mk.inj (Option.some.inj hrun)
            exact .returns hadded hframe _
          · exact (ih hadded hown' hrun).trans hframe
      | UBULK_LOCK pos len type =>
        obtain ⟨hadded, hframe⟩ := addLock_spec hsound (fun tt' htt' _ => hown tt' htt') ⟨pos, type⟩
        have hown' : OwnCurrent (addLock s atid tt.serial ⟨pos, type⟩) atid := fun tt' htt' => by
          simp only [addLock, hcurrent, if_true] at htt'
          rw [← Option.some.inj htt']
          exact htid
        simp only at hrun
        split at hrun
        · obtain ⟨rfl, rfl⟩ := Prod.mk.inj (Option.some.inj hrun)
          exact .returns hsound (.refl _) _
        · split at hrun
          · obtain ⟨rfl, rfl⟩ := Prod.mk.inj (Option.some.inj hrun)
            exact .returns hsound (.refl _) _
          · split at hrun
            · exact (ih hadded hown' hrun).trans hframe
            · obtain ⟨rfl, rfl⟩ := Prod.mk.inj (Option.some.inj hrun)
              refine ⟨hsound, .refl _, fun w hw => ?_⟩
              obtain rfl := Outcome.sleeps.inj hw
              exact ⟨hsound.serial tt hcurrent, fun tt' htt' _ => hown tt' htt'⟩
            · obtain ⟨rfl, rfl⟩ := Prod.mk.inj (Option.some.inj hrun)
              exact .returns hsound (.refl _) _

theorem runChecked_spec {op : RemoteOp}
    (hsound : s.Sound) (hcurrent : s.ubik_currentTrans = some tt) (hown : tt.tid = atid)
    (hrun : runChecked s tt atid io op = some (s', outcome)) : Outcome.Sound s s' outcome := by
  have hownCurrent : OwnCurrent s atid := fun tt' htt' => by rwa [← Option.some.inj (hcurrent.symm.trans htt')]
  have hend := fun reason => udisk_endRemote_spec hsound (show MayEnd s atid reason from fun tt' htt' => Or.inl (hownCurrent tt' htt'))
  cases op with
  | Begin => simp [runChecked] at hrun
  | Commit =>
    obtain ⟨rfl, rfl⟩ := Prod.mk.inj (Option.some.inj hrun)
    obtain ⟨hcommitted, hframe⟩ := remoteCommit_spec hsound hcurrent hown io
    exact .returns hcommitted hframe _
  | Abort =>
    obtain ⟨rfl, rfl⟩ := Prod.mk.inj (Option.some.inj hrun)
    exact .returns (hend .Abort).1 (hend .Abort).2.1 _
  | ReleaseLocks =>
    obtain ⟨rfl, rfl⟩ := Prod.mk.inj (Option.some.inj hrun)
    exact .returns (hend .ReleaseLocks).1 (hend .ReleaseLocks).2.1 _
  | Lock pos len type => exact bulkLoop_spec hsound hownCurrent hrun
  | Update update => exact bulkLoop_spec hsound hownCurrent hrun
  | BulkUpdate bulk => exact bulkLoop_spec hsound hownCurrent hrun

theorem runCall_of_not_begins (s : Replica) (call : RemoteCall) (io : ℕ) (hop : call.op.begins = false) :
    runCall s call io =
      match (urecovery_CheckTidRemote s call.atid).ubik_currentTrans with
      | none => some (urecovery_CheckTidRemote s call.atid, .returns .USYNC)
      | some tt => runChecked (urecovery_CheckTidRemote s call.atid) tt call.atid io call.op := by
  obtain ⟨atid, op⟩ := call
  cases op with
  | Begin => simp [RemoteOp.begins] at hop
  | BulkUpdate bulk =>
    cases bulk with
    | nil => rfl
    | cons op bulk =>
      cases op with
      | UBULK_BEGIN => simp [RemoteOp.begins] at hop
      | _ => rfl
  | _ => rfl

theorem runCall_of_begins {call : RemoteCall}
    (hop : call.op.begins = true) (hrun : runCall s call io = some (s', outcome)) :
    s' = (remoteBegin s call.atid io).1 ∧
      ((∃ code, outcome = .returns code) ∨ ∃ bulk, outcome = .sleeps (.bulkRest call.atid bulk)) := by
  obtain ⟨atid, op⟩ := call
  cases op with
  | Begin =>
    obtain ⟨rfl, rfl⟩ := Prod.mk.inj (Option.some.inj hrun)
    exact ⟨rfl, Or.inl ⟨_, rfl⟩⟩
  | BulkUpdate bulk =>
    cases bulk with
    | nil => simp [RemoteOp.begins] at hop
    | cons op bulk =>
      cases op with
      | UBULK_BEGIN =>
        simp only [runCall] at hrun
        split at hrun
        · obtain ⟨rfl, rfl⟩ := Prod.mk.inj (Option.some.inj hrun)
          exact ⟨rfl, Or.inl ⟨_, rfl⟩⟩
        · obtain ⟨rfl, rfl⟩ := Prod.mk.inj (Option.some.inj hrun)
          exact ⟨rfl, Or.inr ⟨_, rfl⟩⟩
      | _ => simp [RemoteOp.begins] at hop
  | _ => simp [RemoteOp.begins] at hop

theorem runCall_spec {call : RemoteCall} (hsound : s.Sound)
    (htimely : call.op.begins = true ∨
      ∀ tt, s.ubik_currentTrans = some tt → tt.tid = call.atid ∨ tt.tid.endedBy call.atid = true)
    (hrun : runCall s call io = some (s', outcome)) : Outcome.Sound s s' outcome := by
  cases hop : call.op.begins with
  | true =>
    obtain ⟨hbegun, hframe⟩ := remoteBegin_spec hsound call.atid io
    obtain ⟨rfl, ⟨code, rfl⟩ | ⟨bulk, rfl⟩⟩ := runCall_of_begins hop hrun
    · exact .returns hbegun hframe _
    · exact ⟨hbegun, hframe, fun w hw => by obtain rfl := Outcome.sleeps.inj hw; trivial⟩
  | false =>
    obtain ⟨hchecked, hframe, hkept⟩ := urecovery_CheckTidRemote_spec hsound call.atid
    rw [runCall_of_not_begins s call io hop] at hrun
    split at hrun
    · obtain ⟨rfl, rfl⟩ := Prod.mk.inj (Option.some.inj hrun)
      exact .returns hchecked hframe _
    · next tt hcurrent =>
      obtain ⟨hbefore, hnot⟩ := hkept tt hcurrent
      have hown : tt.tid = call.atid :=
        ((htimely.resolve_left (by simp [hop])) tt hbefore).resolve_right (by simp [hnot])
      exact (runChecked_spec hchecked hcurrent hown hrun).trans hframe

/-- What holds in every state of a timely run. -/
structure Replica.Inv (s : Replica) : Prop where
  sound : s.Sound
  own : ∀ w ∈ s.waiting, w.Own s

theorem resume_spec {i io : ℕ} (hinv : s.Inv)
    (hw : s.waiting[i]? = some w) (htimely : timely s (.resume i io) = true)
    (hrun : resume { s with waiting := s.waiting.eraseIdx i } io w = some (s', outcome)) :
    Outcome.Sound { s with waiting := s.waiting.eraseIdx i } s' outcome := by
  obtain ⟨t, ht⟩ : ∃ t : Replica, t = { s with waiting := s.waiting.eraseIdx i } := ⟨_, rfl⟩
  have hsound : t.Sound := ht ▸ ⟨hinv.sound.serial, hinv.sound.updates, hinv.sound.trace⟩
  have hcurrent : t.ubik_currentTrans = s.ubik_currentTrans := ht ▸ rfl
  have hown : w.Own s := hinv.own w (List.mem_of_getElem? hw)
  rw [← ht] at hrun ⊢
  rw [timely, hw, ← hcurrent] at htimely
  cases w with
  | versionLock call =>
    refine runCall_spec hsound ?_ hrun
    cases hbegins : call.op.begins with
    | true => exact Or.inl rfl
    | false =>
      refine Or.inr fun tt htt => ?_
      simpa [htt, hbegins] using htimely
  | bulkRest atid bulk =>
    refine bulkLoop_spec hsound (fun tt htt => ?_) hrun
    simpa [htt] using htimely
  | lockWait atid atrans lock bulk =>
    obtain ⟨hlt, hserial⟩ := hown
    rw [← hcurrent] at hserial
    have hsame : ∀ tt, t.ubik_currentTrans = some tt → tt.serial = atrans := fun tt htt => by
      simpa [htt] using htimely
    have hownCurrent : OwnCurrent t atid := fun tt htt => hserial tt htt (hsame tt htt)
    obtain ⟨hadded, hframe⟩ := addLock_spec hsound hserial lock
    rw [resume] at hrun
    split at hrun
    · refine (bulkLoop_spec hadded (fun tt htt => ?_) hrun).trans hframe
      rcases hframe.current tt htt with ⟨old, hold, _, htid⟩ | hnew
      · exact htid ▸ hownCurrent old hold
      · have hlt' := hadded.serial tt htt
        have hserials : (addLock t atid atrans lock).serials = t.serials := by
          unfold addLock
          split
          · rfl
          · split <;> rfl
        omega
    · obtain ⟨rfl, rfl⟩ := Prod.mk.inj (Option.some.inj hrun)
      refine ⟨hsound, .refl _, fun w hw => ?_⟩
      obtain rfl := Outcome.sleeps.inj hw
      exact ⟨by rw [ht]; exact hlt, hserial⟩
    · obtain ⟨rfl, rfl⟩ := Prod.mk.inj (Option.some.inj hrun)
      exact .returns hsound (.refl _) _

theorem Replica.Inv.step {i : ReplicaStep} (hinv : s.Inv) (htimely : timely s i = true)
    (hstep : s.step i = some s') : s'.Inv := by
  cases i with
  | arrive call =>
    rw [Replica.step] at hstep
    split at hstep
    · obtain rfl := Option.some.inj hstep
      exact ⟨⟨hinv.sound.serial, hinv.sound.updates, hinv.sound.trace⟩, hinv.own⟩
    · obtain rfl := Option.some.inj hstep
      refine ⟨⟨hinv.sound.serial, hinv.sound.updates, hinv.sound.trace⟩, fun w hw => ?_⟩
      rcases List.mem_cons.mp hw with rfl | hw
      · trivial
      · exact hinv.own w hw
  | readers locks =>
    obtain rfl := Option.some.inj hstep
    exact ⟨⟨hinv.sound.serial, hinv.sound.updates, hinv.sound.trace⟩, hinv.own⟩
  | beacon atid =>
    rw [Replica.step] at hstep
    split at hstep
    · obtain rfl := Option.some.inj hstep
      exact hinv
    · obtain rfl := Option.some.inj hstep
      split
      · refine ⟨⟨nofun, nofun, hinv.sound.trace⟩, fun w hw => ?_⟩
        exact (hinv.own w hw).frame ⟨Nat.le_refl _, rfl, nofun⟩
      · exact hinv
  | resume i io =>
    rw [Replica.step] at hstep
    cases hw : s.waiting[i]? with
    | none => simp [hw] at hstep
    | some w =>
      simp only [hw] at hstep
      have hrest : ∀ w' ∈ s.waiting.eraseIdx i, w'.Own { s with waiting := s.waiting.eraseIdx i } := fun w' hw' =>
        (hinv.own w' (List.mem_of_mem_eraseIdx hw')).congr rfl rfl
      have hkept : ∀ {s₁ : Replica}, Replica.Frame { s with waiting := s.waiting.eraseIdx i } s₁ →
          ∀ w' ∈ s₁.waiting, w'.Own s₁ := fun hframe w' hw' => by
        rw [hframe.waiting] at hw'
        exact (hrest w' hw').frame hframe
      split at hstep
      · simp at hstep
      · next s₁ code hrun =>
        obtain rfl := Option.some.inj hstep
        have hspec := resume_spec hinv hw htimely hrun
        exact ⟨⟨hspec.sound.serial, hspec.sound.updates, hspec.sound.trace⟩,
          fun w' hw' => (hkept hspec.frame w' hw').congr rfl rfl⟩
      · next s₁ w₁ hrun =>
        obtain rfl := Option.some.inj hstep
        have hspec := resume_spec hinv hw htimely hrun
        refine ⟨⟨hspec.sound.serial, hspec.sound.updates, hspec.sound.trace⟩, fun w' hw' => ?_⟩
        rcases List.mem_cons.mp hw' with rfl | hw'
        · exact (hspec.own _ rfl).congr rfl rfl
        · exact (hkept hspec.frame w' hw').congr rfl rfl

theorem timelyReplica_inv {s : Replica} (hreach : timelyReplica.Reachable s) : s.Inv := by
  refine hreach.invariant (fun s hinit => ?_) fun s i s' hinv hstep => ?_
  · obtain ⟨hcurrent, hwaiting, htrace⟩ := hinit
    refine ⟨⟨by simp [hcurrent], by simp [hcurrent], ?_⟩, by simp [hwaiting]⟩
    rw [htrace]
    trivial
  · obtain ⟨htimely, hstep⟩ := System.restrict_step hstep
    exact hinv.step htimely hstep

/-- In a timely run, every call has effects on its own transaction only, except that
it may end what `urecovery_CheckTid` or `SUBIKDISK_Begin` is there to end, and a
commit applies the updates that were sent for its transaction. -/
theorem replica_isolated {s : Replica} (hreach : timelyReplica.Reachable s) : Isolated s.trace :=
  (timelyReplica_inv hreach).sound.trace

def freshReplica : Replica := ⟨none, 0, [], [], [], []⟩

def oneTransaction : List ReplicaStep :=
  [.arrive ⟨⟨1, 2⟩, .Begin⟩, .resume 0 1, .arrive ⟨⟨1, 2⟩, .Update (.truncate 0 0)⟩, .resume 0 1,
    .arrive ⟨⟨1, 2⟩, .Commit⟩, .resume 0 1]

/-- The replica after `oneTransaction`. -/
def afterOneTransaction : Replica where
  ubik_currentTrans := some ⟨0, ⟨1, 2⟩, true, [.truncate 0 0], []⟩
  serials := 1
  readLocks := []
  waiting := []
  replies := [(⟨1, 2⟩, .success), (⟨1, 2⟩, .success), (⟨1, 2⟩, .success)]
  trace := [⟨⟨1, 2⟩, ⟨1, 2⟩, .committed [.truncate 0 0]⟩, ⟨⟨1, 2⟩, ⟨1, 2⟩, .updated (.truncate 0 0)⟩,
    ⟨⟨1, 2⟩, ⟨1, 2⟩, .begun⟩]

theorem replica_isolated_oneTransaction : Isolated afterOneTransaction.trace :=
  replica_isolated (System.reachable_of_exec (s := freshReplica) oneTransaction ⟨rfl, rfl, rfl⟩ rfl)

def lostBegin : List ReplicaStep :=
  [.arrive ⟨⟨1, 2⟩, .Begin⟩, .resume 0 1, .arrive ⟨⟨1, 4⟩, .Update (.truncate 0 0)⟩, .resume 0 1]

/-- The replica after `lostBegin`. -/
def afterLostBegin : Replica where
  ubik_currentTrans := none
  serials := 1
  readLocks := []
  waiting := []
  replies := [(⟨1, 4⟩, .USYNC), (⟨1, 2⟩, .success)]
  trace := [⟨⟨1, 4⟩, ⟨1, 2⟩, .ended .CheckTid⟩, ⟨⟨1, 2⟩, ⟨1, 2⟩, .begun⟩]

/-- A call may end a transaction that is not its own. -/
theorem call_ends_other : replica.Reachable afterLostBegin ∧ ¬∀ e ∈ afterLostBegin.trace, e.target = e.atid := by
  refine ⟨System.reachable_of_exec (s := freshReplica) lostBegin ⟨rfl, rfl, rfl⟩ rfl, fun hown => ?_⟩
  have hended := hown ⟨⟨1, 4⟩, ⟨1, 2⟩, .ended .CheckTid⟩ List.mem_cons_self
  exact absurd hended (by decide)

end dce.ubik
