import Dce.Lib.System
import Dce.Ubik.Phys

open lib

namespace dce.ubik

/-- The type of a transaction. -/
inductive TransMode where
  | UBIK_READTRANS
  | UBIK_WRITETRANS
  deriving DecidableEq, Repr

/-- A transaction of the sync site. -/
structure SiteTrans where
  tid : Tid
  type : TransMode
  deriving DecidableEq, Repr

/-- What the sync site knows of transactions in one epoch. The last two fields are
those of the specification: the write transactions begun so far, and those of them
that have ended. -/
structure SyncSite where
  ubik_epochTime : ℤ
  tidCounter : ℤ
  writeTidCounter : ℤ
  /-- `DBWRITING` is set. -/
  writing : Bool
  activeTrans : List SiteTrans
  begun : List Tid
  ended : List Tid
  deriving DecidableEq, Repr

/-- The identifier of the next transaction: `tidCounter` is bumped by two. -/
def SyncSite.nextTid (s : SyncSite) : Tid := ⟨s.ubik_epochTime, s.tidCounter + 2⟩

/-- `BeginTrans`. A write transaction waits while there is one. -/
def SyncSite.BeginTrans (s : SyncSite) : TransMode → Option SyncSite
  | .UBIK_READTRANS => some
      { s with
        tidCounter := s.tidCounter + 2
        activeTrans := ⟨s.nextTid, .UBIK_READTRANS⟩ :: s.activeTrans }
  | .UBIK_WRITETRANS =>
    if s.writing then none
    else some
      { s with
        tidCounter := s.tidCounter + 2
        writeTidCounter := s.writeTidCounter + 2
        writing := true
        activeTrans := ⟨s.nextTid, .UBIK_WRITETRANS⟩ :: s.activeTrans
        begun := s.nextTid :: s.begun }

/-- `udisk_end`: a transaction is committed or aborted. -/
def SyncSite.udisk_end (s : SyncSite) (atrans : SiteTrans) : Option SyncSite :=
  if atrans ∈ s.activeTrans then
    let s := { s with activeTrans := s.activeTrans.filter (· ≠ atrans) }
    match atrans.type with
    | .UBIK_READTRANS => some s
    | .UBIK_WRITETRANS => some { s with writing := false, ended := atrans.tid :: s.ended }
  else none

/-- The identifier that `ubeacon_Interact` puts into a beacon. -/
def SyncSite.ttid (s : SyncSite) : Tid where
  epoch := s.ubik_epochTime
  counter := if s.writing then s.writeTidCounter else s.tidCounter + 1

/-- `urecovery_CheckTid` on a replica's remote transaction. -/
def urecovery_CheckTid (atid : Tid) (currentTrans : Option Tid) : Option Tid :=
  currentTrans.filter fun tid => !tid.endedBy atid

/-- The sync site, the beacons it has built, each with the state it was built in,
and the remote transaction of one replica. -/
structure BeaconHistory where
  site : SyncSite
  beacons : List SyncSite
  currentTrans : Option Tid
  deriving DecidableEq, Repr

inductive HistoryStep where
  | beginTrans (transMode : TransMode)
  | endTrans (atrans : SiteTrans)
  | buildBeacon
  /-- `SUBIKDISK_Begin` of a write transaction arrives, however late. -/
  | remoteBegin (tid : Tid)
  /-- The replica's transaction is committed and unlocked, or aborted. -/
  | remoteEnd
  /-- A beacon arrives, however late. -/
  | deliver (beacon : SyncSite)

def BeaconHistory.step (h : BeaconHistory) : HistoryStep → Option BeaconHistory
  | .beginTrans transMode => (h.site.BeginTrans transMode).map fun site => { h with site := site }
  | .endTrans atrans => (h.site.udisk_end atrans).map fun site => { h with site := site }
  | .buildBeacon => some { h with beacons := h.site :: h.beacons }
  | .remoteBegin tid => if tid ∈ h.site.begun then some { h with currentTrans := some tid } else none
  | .remoteEnd => some { h with currentTrans := none }
  | .deliver beacon =>
    if beacon ∈ h.beacons then some { h with currentTrans := urecovery_CheckTid beacon.ttid h.currentTrans } else none

/-- The start of an epoch: no write transaction of it has begun. -/
structure SyncSite.Fresh (s : SyncSite) : Prop where
  counters : s.writeTidCounter ≤ s.tidCounter
  writing : s.writing = false
  activeTrans : s.activeTrans = []
  begun : s.begun = []
  ended : s.ended = []

def beaconHistories : System BeaconHistory HistoryStep where
  init h := h.site.Fresh ∧ h.beacons = [] ∧ h.currentTrans = none
  step := BeaconHistory.step

/-- What holds of the sync site at any moment of an epoch. -/
structure SyncSite.Inv (s : SyncSite) : Prop where
  counters : s.writeTidCounter ≤ s.tidCounter
  begun : ∀ tid ∈ s.begun, tid.epoch = s.ubik_epochTime ∧ tid.counter ≤ s.tidCounter
  ended : ∀ tid ∈ s.ended, tid ∈ s.begun
  /-- A write transaction that has not ended is the one that `DBWRITING` is set for. -/
  live : ∀ tid ∈ s.begun, tid ∉ s.ended → s.writing = true ∧ s.writeTidCounter ≤ tid.counter
  unique : ∀ tid ∈ s.begun, tid ∉ s.ended → ∀ tid' ∈ s.begun, tid' ∉ s.ended → tid = tid'
  active : ∀ atrans ∈ s.activeTrans, atrans.type = .UBIK_WRITETRANS → atrans.tid ∈ s.begun ∧ atrans.tid ∉ s.ended

/-- `later` is a state of the same epoch behind `s`: transactions begun since have
larger identifiers. -/
structure SyncSite.Before (s later : SyncSite) : Prop where
  epoch : later.ubik_epochTime = s.ubik_epochTime
  tidCounter : s.tidCounter ≤ later.tidCounter
  begun : ∀ tid ∈ later.begun, tid ∈ s.begun ∨ s.tidCounter + 2 ≤ tid.counter

theorem SyncSite.Fresh.inv {s : SyncSite} (hfresh : s.Fresh) : s.Inv := by
  refine ⟨hfresh.counters, ?_, ?_, ?_, ?_, ?_⟩ <;> simp [hfresh.begun, hfresh.ended, hfresh.activeTrans]

theorem SyncSite.Before.refl (s : SyncSite) : s.Before s := ⟨rfl, Int.le_refl _, fun _ hmem => Or.inl hmem⟩

theorem SyncSite.BeginTrans_spec {s s' : SyncSite} {transMode : TransMode} (hinv : s.Inv)
    (hbegin : s.BeginTrans transMode = some s') :
    s'.Inv ∧ s'.ubik_epochTime = s.ubik_epochTime ∧ s'.tidCounter = s.tidCounter + 2 ∧
      ∀ tid ∈ s'.begun, tid ∈ s.begun ∨ tid = s.nextTid := by
  cases transMode with
  | UBIK_READTRANS =>
    obtain rfl := Option.some.inj hbegin
    refine ⟨⟨?_, ?_, hinv.ended, hinv.live, hinv.unique, ?_⟩, rfl, rfl, fun _ => Or.inl⟩
    · have hcounters := hinv.counters
      change s.writeTidCounter ≤ s.tidCounter + 2
      omega
    · intro tid hmem
      obtain ⟨hepoch, hle⟩ := hinv.begun tid hmem
      exact ⟨hepoch, Int.le_trans hle (Int.le_add_of_nonneg_right (by decide))⟩
    · intro atrans hmem htype
      rcases List.mem_cons.mp hmem with rfl | hmem
      · simp at htype
      · exact hinv.active atrans hmem htype
  | UBIK_WRITETRANS =>
    rw [BeginTrans] at hbegin
    obtain ⟨hidle, hbegin⟩ := Option.ite_none_left_eq_some.mp hbegin
    obtain rfl := Option.some.inj hbegin
    have hcounters := hinv.counters
    -- nobody is writing, so whatever has begun has ended
    have hall : ∀ tid ∈ s.begun, tid ∈ s.ended := fun tid hmem => by
      by_contra hlive
      exact hidle (hinv.live tid hmem hlive).1
    have hnew : s.nextTid ∉ s.ended := fun hmem => by
      have hle : s.tidCounter + 2 ≤ s.tidCounter := (hinv.begun _ (hinv.ended _ hmem)).2
      omega
    have hlive : ∀ tid ∈ s.nextTid :: s.begun, tid ∉ s.ended → tid = s.nextTid := fun tid hmem hnot => by
      rcases List.mem_cons.mp hmem with rfl | hmem
      · rfl
      · exact absurd (hall tid hmem) hnot
    refine ⟨⟨?_, ?_, ?_, ?_, ?_, ?_⟩, rfl, rfl, fun tid hmem => (List.mem_cons.mp hmem).symm⟩
    · change s.writeTidCounter + 2 ≤ s.tidCounter + 2
      omega
    · intro tid hmem
      rcases List.mem_cons.mp hmem with rfl | hmem
      · exact ⟨rfl, Int.le_refl _⟩
      · obtain ⟨hepoch, hle⟩ := hinv.begun tid hmem
        exact ⟨hepoch, Int.le_trans hle (Int.le_add_of_nonneg_right (by decide))⟩
    · exact fun tid hmem => List.mem_cons_of_mem _ (hinv.ended tid hmem)
    · intro tid hmem hnot
      obtain rfl := hlive tid hmem hnot
      refine ⟨rfl, ?_⟩
      change s.writeTidCounter + 2 ≤ s.tidCounter + 2
      omega
    · intro tid hmem hnot tid' hmem' hnot'
      rw [hlive tid hmem hnot, hlive tid' hmem' hnot']
    · intro atrans hmem htype
      rcases List.mem_cons.mp hmem with rfl | hmem
      · exact ⟨List.mem_cons_self .., hnew⟩
      · obtain ⟨hbegun, hnot⟩ := hinv.active atrans hmem htype
        exact absurd (hall _ hbegun) hnot

theorem SyncSite.udisk_end_spec {s s' : SyncSite} {atrans : SiteTrans} (hinv : s.Inv)
    (hend : s.udisk_end atrans = some s') :
    s'.Inv ∧ s'.ubik_epochTime = s.ubik_epochTime ∧ s'.tidCounter = s.tidCounter ∧ s'.begun = s.begun := by
  rw [udisk_end] at hend
  obtain ⟨hmem, hend⟩ := Option.ite_none_right_eq_some.mp hend
  have hactive : ∀ other ∈ s.activeTrans.filter (· ≠ atrans), other.type = .UBIK_WRITETRANS →
      other ≠ atrans ∧ other.tid ∈ s.begun ∧ other.tid ∉ s.ended := fun other hother htype => by
    obtain ⟨hother, hne⟩ := List.mem_filter.mp hother
    exact ⟨by simpa using hne, hinv.active other hother htype⟩
  cases htype : atrans.type with
  | UBIK_READTRANS =>
    simp only [htype] at hend
    obtain rfl := Option.some.inj hend
    exact ⟨⟨hinv.counters, hinv.begun, hinv.ended, hinv.live, hinv.unique,
      fun other hother hwrite => (hactive other hother hwrite).2⟩, rfl, rfl, rfl⟩
  | UBIK_WRITETRANS =>
    simp only [htype] at hend
    obtain rfl := Option.some.inj hend
    obtain ⟨hbegun, hnot⟩ := hinv.active atrans hmem htype
    have hall : ∀ tid ∈ s.begun, tid ∈ atrans.tid :: s.ended := fun tid htid => by
      by_cases hlive : tid ∈ s.ended
      · exact List.mem_cons_of_mem _ hlive
      · rw [hinv.unique tid htid hlive atrans.tid hbegun hnot]
        exact List.mem_cons_self
    refine ⟨⟨hinv.counters, hinv.begun, ?_, fun tid htid hlive => absurd (hall tid htid) hlive,
      fun tid htid hlive => absurd (hall tid htid) hlive, ?_⟩, rfl, rfl, rfl⟩
    · intro tid htid
      rcases List.mem_cons.mp htid with rfl | htid
      · exact hbegun
      · exact hinv.ended tid htid
    · intro other hother hwrite
      obtain ⟨hne, hother, hlive⟩ := hactive other hother hwrite
      have htid := hinv.unique _ hother hlive _ hbegun hnot
      refine absurd ?_ hne
      obtain ⟨tid, type⟩ := other
      obtain ⟨tid', type'⟩ := atrans
      simp_all

/-- What holds of every history: its beacons were built in states before the
present one, and the replica's transaction is a write transaction of the site. -/
structure BeaconHistory.Inv (h : BeaconHistory) : Prop where
  site : h.site.Inv
  beacons : ∀ beacon ∈ h.beacons, beacon.Inv ∧ beacon.Before h.site
  currentTrans : ∀ tid, h.currentTrans = some tid → tid ∈ h.site.begun

theorem BeaconHistory.Inv.siteStep {h : BeaconHistory} (hinv : h.Inv) {site : SyncSite} (hsite : site.Inv)
    (hepoch : site.ubik_epochTime = h.site.ubik_epochTime) (hle : h.site.tidCounter ≤ site.tidCounter)
    (hold : ∀ tid ∈ h.site.begun, tid ∈ site.begun)
    (hnew : ∀ tid ∈ site.begun, tid ∈ h.site.begun ∨ h.site.tidCounter + 2 ≤ tid.counter) :
    BeaconHistory.Inv { h with site := site } where
  site := hsite
  beacons beacon hmem := by
    obtain ⟨hbeacon, hbefore⟩ := hinv.beacons beacon hmem
    refine ⟨hbeacon, hepoch.trans hbefore.epoch, Int.le_trans hbefore.tidCounter hle, fun tid htid => ?_⟩
    rcases hnew tid htid with hin | hlarge
    · exact hbefore.begun tid hin
    · have hmono := hbefore.tidCounter
      exact Or.inr (by omega)
  currentTrans tid htid := hold tid (hinv.currentTrans tid htid)

theorem BeaconHistory.Inv.step {h h' : BeaconHistory} {i : HistoryStep} (hinv : h.Inv) (hstep : h.step i = some h') :
    h'.Inv := by
  cases i with
  | beginTrans transMode =>
    rw [BeaconHistory.step] at hstep
    obtain ⟨site, hsite, rfl⟩ := Option.map_eq_some_iff.mp hstep
    obtain ⟨hinv', hepoch, hcounter, hbegun⟩ := SyncSite.BeginTrans_spec hinv.site hsite
    refine hinv.siteStep hinv' hepoch (by omega) (fun tid hmem => ?_) fun tid hmem => ?_
    · cases transMode with
      | UBIK_READTRANS =>
        obtain rfl := Option.some.inj hsite
        exact hmem
      | UBIK_WRITETRANS =>
        rw [SyncSite.BeginTrans] at hsite
        split at hsite
        · simp at hsite
        · obtain rfl := Option.some.inj hsite
          exact List.mem_cons_of_mem _ hmem
    · rcases hbegun tid hmem with hin | rfl
      · exact Or.inl hin
      · exact Or.inr (Int.le_refl _)
  | endTrans atrans =>
    rw [BeaconHistory.step] at hstep
    obtain ⟨site, hsite, rfl⟩ := Option.map_eq_some_iff.mp hstep
    obtain ⟨hinv', hepoch, hcounter, hbegun⟩ := SyncSite.udisk_end_spec hinv.site hsite
    exact hinv.siteStep hinv' hepoch (by omega) (fun tid hmem => by rwa [hbegun]) fun tid hmem => Or.inl (by rwa [← hbegun])
  | buildBeacon =>
    rw [BeaconHistory.step] at hstep
    obtain rfl := Option.some.inj hstep
    refine ⟨hinv.site, fun beacon hmem => ?_, hinv.currentTrans⟩
    rcases List.mem_cons.mp hmem with rfl | hmem
    · exact ⟨hinv.site, .refl _⟩
    · exact hinv.beacons beacon hmem
  | remoteBegin tid =>
    rw [BeaconHistory.step] at hstep
    split at hstep
    · next hbegun =>
      obtain rfl := Option.some.inj hstep
      exact ⟨hinv.site, hinv.beacons, fun tid' htid' => Option.some.inj htid' ▸ hbegun⟩
    · simp at hstep
  | remoteEnd =>
    rw [BeaconHistory.step] at hstep
    obtain rfl := Option.some.inj hstep
    exact ⟨hinv.site, hinv.beacons, fun tid htid => by simp at htid⟩
  | deliver beacon =>
    rw [BeaconHistory.step] at hstep
    split at hstep
    · obtain rfl := Option.some.inj hstep
      refine ⟨hinv.site, hinv.beacons, fun tid htid => hinv.currentTrans tid ?_⟩
      exact (Option.filter_eq_some_iff.mp htid).1
    · simp at hstep

theorem reachable_inv {h : BeaconHistory} (hreach : beaconHistories.Reachable h) : h.Inv := by
  refine hreach.invariant (fun h ⟨hfresh, hbeacons, hcurrent⟩ => ?_) fun h i h' hinv hstep => hinv.step (i := i) hstep
  exact ⟨hfresh.inv, by simp [hbeacons], by simp [hcurrent]⟩

/-- The delivery of a beacon ends the replica's transaction exactly when that had
ended at the sync site before the beacon was built. -/
def DeliverySound (h : BeaconHistory) (beacon : SyncSite) (tid : Tid) : Prop :=
  ∀ h', h.step (.deliver beacon) = some h' → (h'.currentTrans = none ↔ tid ∈ beacon.ended)

section

variable {h : BeaconHistory} (hreach : beaconHistories.Reachable h) {beacon : SyncSite} (hbeacon : beacon ∈ h.beacons)
  {tid : Tid} (htid : h.currentTrans = some tid)

include hreach hbeacon htid

theorem deliver_none_iff {h' : BeaconHistory} (hstep : h.step (.deliver beacon) = some h') :
    h'.currentTrans = none ↔ tid.counter < beacon.ttid.counter := by
  have hinv := reachable_inv hreach
  have hepoch : beacon.ttid.epoch = tid.epoch := by
    rw [(hinv.site.begun tid (hinv.currentTrans tid htid)).1]
    exact (hinv.beacons beacon hbeacon).2.epoch.symm
  rw [BeaconHistory.step, if_pos hbeacon] at hstep
  obtain rfl := Option.some.inj hstep
  simp [htid, urecovery_CheckTid, Tid.endedBy, hepoch, Option.filter]

theorem ended_of_lt_ttid (hlt : tid.counter < beacon.ttid.counter) : tid ∈ beacon.ended := by
  have hinv := reachable_inv hreach
  obtain ⟨hsite, hbefore⟩ := hinv.beacons beacon hbeacon
  have hcounters := hsite.counters
  rcases hbefore.begun tid (hinv.currentTrans tid htid) with hbegun | hlater
  · by_contra hnot
    obtain ⟨hwriting, hle⟩ := hsite.live tid hbegun hnot
    simp only [SyncSite.ttid, hwriting, if_true] at hlt
    omega
  · simp only [SyncSite.ttid] at hlt
    split at hlt <;> omega

omit htid in
theorem lt_ttid_iff_of_ended (hended : tid ∈ beacon.ended) :
    tid.counter < beacon.ttid.counter ↔ (beacon.writing = true → tid.counter < beacon.writeTidCounter) := by
  obtain ⟨hsite, _⟩ := (reachable_inv hreach).beacons beacon hbeacon
  have hle := (hsite.begun tid (hsite.ended tid hended)).2
  cases hwriting : beacon.writing with
  | true => simp [SyncSite.ttid, hwriting]
  | false =>
    simp only [SyncSite.ttid, hwriting, Bool.false_eq_true, if_false, false_implies, iff_true]
    omega

end

/-- When beacons end exactly the transactions that have ended. -/
theorem delivery_sound_iff {h : BeaconHistory} (hreach : beaconHistories.Reachable h) {beacon : SyncSite}
    (hbeacon : beacon ∈ h.beacons) {tid : Tid} (htid : h.currentTrans = some tid) :
    DeliverySound h beacon tid ↔
      (tid ∈ beacon.ended → beacon.writing = true → tid.counter < beacon.writeTidCounter) := by
  have hstep : h.step (.deliver beacon) = some { h with currentTrans := urecovery_CheckTid beacon.ttid h.currentTrans } :=
    if_pos hbeacon
  constructor
  · intro hsound hended
    have hnone := (hsound _ hstep).mpr hended
    exact (lt_ttid_iff_of_ended hreach hbeacon hended).mp ((deliver_none_iff hreach hbeacon htid hstep).mp hnone)
  · intro hcounter h' hstep'
    rw [deliver_none_iff hreach hbeacon htid hstep']
    exact ⟨ended_of_lt_ttid hreach hbeacon htid,
      fun hended => (lt_ttid_iff_of_ended hreach hbeacon hended).mpr (hcounter hended)⟩

def freshSite : SyncSite := ⟨1, 0, 0, false, [], [], []⟩

theorem freshSite_init : beaconHistories.init ⟨freshSite, [], none⟩ := ⟨⟨by decide, rfl, rfl, rfl, rfl⟩, rfl, rfl⟩

def twoWrites : List HistoryStep :=
  [.beginTrans .UBIK_WRITETRANS, .remoteBegin ⟨1, 2⟩, .endTrans ⟨⟨1, 2⟩, .UBIK_WRITETRANS⟩,
    .beginTrans .UBIK_WRITETRANS, .buildBeacon]

/-- The state after `twoWrites`. -/
def afterTwoWrites : BeaconHistory :=
  let site : SyncSite := ⟨1, 4, 4, true, [⟨⟨1, 4⟩, .UBIK_WRITETRANS⟩], [⟨1, 4⟩, ⟨1, 2⟩], [⟨1, 2⟩]⟩
  ⟨site, [site], some ⟨1, 2⟩⟩

theorem delivery_sound_iff_twoWrites : DeliverySound afterTwoWrites afterTwoWrites.site ⟨1, 2⟩ :=
  (delivery_sound_iff (System.reachable_of_exec twoWrites freshSite_init (by decide +kernel)) (by decide) rfl).mpr
    fun _ _ => by decide

/-- The same behind a read transaction, which bumps `tidCounter` only. -/
def afterReadAndTwoWrites : BeaconHistory :=
  let site : SyncSite := ⟨1, 6, 4, true, [⟨⟨1, 6⟩, .UBIK_WRITETRANS⟩], [⟨1, 6⟩, ⟨1, 4⟩], [⟨1, 4⟩]⟩
  ⟨site, [site], some ⟨1, 4⟩⟩

/-- After a read transaction, a beacon built during the second write transaction
does not end the first. -/
theorem delivery_unsound : beaconHistories.Reachable afterReadAndTwoWrites ∧
    ¬DeliverySound afterReadAndTwoWrites afterReadAndTwoWrites.site ⟨1, 4⟩ := by
  constructor
  · refine System.reachable_of_exec (s := ⟨freshSite, [], none⟩)
      [.beginTrans .UBIK_READTRANS, .endTrans ⟨⟨1, 2⟩, .UBIK_READTRANS⟩, .beginTrans .UBIK_WRITETRANS,
        .remoteBegin ⟨1, 4⟩, .endTrans ⟨⟨1, 4⟩, .UBIK_WRITETRANS⟩, .beginTrans .UBIK_WRITETRANS, .buildBeacon]
      freshSite_init ?_
    decide +kernel
  · intro hsound
    have hended := (hsound afterReadAndTwoWrites (by decide +kernel)).mpr (by decide)
    exact absurd hended (by decide)

/-- Neither `SUBIKDISK_Begin` nor an end of the replica's transaction by a call. -/
def HistoryStep.IsPassive : HistoryStep → Prop
  | .remoteBegin _ | .remoteEnd => False
  | _ => True

theorem BeaconHistory.ended_step {h h' : BeaconHistory} {i : HistoryStep} (hstep : h.step i = some h') :
    h.site.ended ⊆ h'.site.ended ∧ ∀ beacon ∈ h'.beacons, beacon ∈ h.beacons ∨ beacon = h'.site := by
  cases i with
  | beginTrans transMode =>
    obtain ⟨site, hsite, rfl⟩ := Option.map_eq_some_iff.mp hstep
    refine ⟨fun tid htid => ?_, fun _ => .inl⟩
    cases transMode with
    | UBIK_READTRANS => exact Option.some.inj hsite ▸ htid
    | UBIK_WRITETRANS => exact Option.some.inj (Option.ite_none_left_eq_some.mp hsite).2 ▸ htid
  | endTrans atrans =>
    obtain ⟨site, hsite, rfl⟩ := Option.map_eq_some_iff.mp hstep
    refine ⟨fun tid htid => ?_, fun _ => .inl⟩
    have hend := (Option.ite_none_right_eq_some.mp hsite).2
    cases htype : atrans.type <;> rw [htype] at hend
    · exact Option.some.inj hend ▸ htid
    · exact Option.some.inj hend ▸ List.mem_cons_of_mem _ htid
  | buildBeacon =>
    obtain rfl := Option.some.inj hstep
    exact ⟨fun _ => id, fun beacon hmem => (List.mem_cons.mp hmem).symm⟩
  | remoteBegin tid =>
    obtain rfl := Option.some.inj (Option.ite_none_right_eq_some.mp hstep).2
    exact ⟨fun _ => id, fun _ => .inl⟩
  | remoteEnd =>
    obtain rfl := Option.some.inj hstep
    exact ⟨fun _ => id, fun _ => .inl⟩
  | deliver beacon =>
    obtain rfl := Option.some.inj (Option.ite_none_right_eq_some.mp hstep).2
    exact ⟨fun _ => id, fun _ => .inl⟩

theorem beacons_ended {h : BeaconHistory} (hreach : beaconHistories.Reachable h) :
    ∀ beacon ∈ h.beacons, beacon.ended ⊆ h.site.ended := by
  refine hreach.invariant (P := fun h => ∀ beacon ∈ h.beacons, beacon.ended ⊆ h.site.ended)
    (fun h hinit => ?_) fun h i h' hended hstep beacon hmem => ?_
  · simp [hinit.2.1]
  obtain ⟨hgrown, hbuilt⟩ := BeaconHistory.ended_step hstep
  rcases hbuilt beacon hmem with hold | rfl
  · exact fun tid htid => hgrown (hended beacon hold htid)
  · exact fun _ => id

/-- A replica loses no transaction that goes on at the sync site to beacons, in whatever order and however late they come. -/
theorem live_trans_kept {h h' : BeaconHistory} (hreach : beaconHistories.Reachable h) {tid : Tid}
    (htid : h.currentTrans = some tid) (steps : List HistoryStep) (hpassive : ∀ i ∈ steps, i.IsPassive)
    (hexec : beaconHistories.exec h steps = some h') : h'.currentTrans = some tid ∨ tid ∈ h'.site.ended := by
  have hkept : h.currentTrans = some tid ∨ tid ∈ h.site.ended := .inl htid
  clear htid
  induction steps generalizing h with
  | nil => exact Option.some.inj hexec ▸ hkept
  | cons i steps ih =>
    obtain ⟨mid, hstep, hexec⟩ := Option.bind_eq_some_iff.mp hexec
    have hrest := fun j hj => hpassive j (List.mem_cons_of_mem i hj)
    refine ih (hreach.step hstep) hrest hexec ?_
    rcases hkept with htid | hended
    · have hthis := hpassive i List.mem_cons_self
      cases i with
      | beginTrans transMode =>
        obtain ⟨site, -, rfl⟩ := Option.map_eq_some_iff.mp hstep
        exact .inl htid
      | endTrans atrans =>
        obtain ⟨site, -, rfl⟩ := Option.map_eq_some_iff.mp hstep
        exact .inl htid
      | buildBeacon => exact .inl (Option.some.inj hstep ▸ htid)
      | remoteBegin tid => exact hthis.elim
      | remoteEnd => exact hthis.elim
      | deliver beacon =>
        have hbeacon := (Option.ite_none_right_eq_some.mp hstep).1
        by_cases hlt : tid.counter < beacon.ttid.counter
        · have hended := beacons_ended hreach beacon hbeacon (ended_of_lt_ttid hreach hbeacon htid hlt)
          exact .inr ((BeaconHistory.ended_step (i := .deliver beacon) hstep).1 hended)
        · left
          have hsome := mt (deliver_none_iff hreach hbeacon htid hstep).mp hlt
          obtain rfl := Option.some.inj (Option.ite_none_right_eq_some.mp hstep).2
          simp only [htid, urecovery_CheckTid, Option.filter] at hsome ⊢
          split at hsome
          · next hkeep => simp [hkeep]
          · exact absurd rfl hsome
    · exact .inr ((BeaconHistory.ended_step hstep).1 hended)

theorem live_trans_kept_twoWrites : afterTwoWrites.site.writing = true ∧ ∃ h', beaconHistories.exec afterTwoWrites
    [.deliver afterTwoWrites.site] = some h' ∧ (h'.currentTrans = some ⟨1, 2⟩ ∨ ⟨1, 2⟩ ∈ h'.site.ended) := by
  have hreach : beaconHistories.Reachable afterTwoWrites := System.reachable_of_exec twoWrites freshSite_init (by decide +kernel)
  refine ⟨rfl, _, rfl, live_trans_kept hreach rfl [.deliver afterTwoWrites.site] (fun i hi => ?_) rfl⟩
  rw [List.mem_singleton.mp hi]
  trivial

end dce.ubik
