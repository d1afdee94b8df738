import Mathlib.Algebra.Ring.Nat
import Mathlib.Data.Int.Basic
import Mathlib.Data.List.Flatten
import Dce.Lib.System

open lib

namespace dce.ubik.ulocks

def LOCKREAD : ℤ := 1

def LOCKWRITE : ℤ := 2

/-- A lock of one position. Callers that wait for it sleep on the address of its flags. -/
structure ubik_lock where
  address : ℕ
  type : ℤ
  start : ℤ
  /-- The flag `LWANT`. -/
  want : Bool
  deriving DecidableEq, Repr

/-- What the lock calls use of a transaction: the flag `TRDONE` and its locks. -/
structure ubik_trans where
  done : Bool
  activeLocks : List ubik_lock

/-- A call of `ulock_SetLock` that sleeps. -/
structure Sleeper where
  atrans : ℕ
  apos : ℤ
  atype : ℤ
  /-- The lock on whose flags it sleeps. -/
  address : ℕ
  woken : Bool
  deriving DecidableEq, Repr

/-- The memory of the transactions, those on the list `activeTrans`, and the calls that sleep. Transactions and locks are numbered
as they are allocated; what writes to a transaction that was freed writes to its old memory. -/
structure ubik_dbase where
  trans : ℕ → ubik_trans
  activeTrans : List ℕ
  begun : ℕ
  allocated : ℕ
  sleepers : List Sleeper

/-- What a lock call returns. -/
inductive Code where
  | ok
  | UDONE
  | EINVAL
  | EWOULDBLOCK
  deriving DecidableEq, Repr

/-- What ends the walk over the locks before its end. -/
inductive Stop where
  | EINVAL
  | busy (tl : ubik_lock)

def tryLock (apos atype : ℤ) (tl : ubik_lock) : Option Stop :=
  if tl.start = apos then
    if atype = LOCKREAD then if tl.type = LOCKWRITE then some (.busy tl) else none
    else if atype = LOCKWRITE then some (.busy tl)
    else some .EINVAL
  else none

namespace ubik_dbase

def locks (d : ubik_dbase) : List ubik_lock := d.activeTrans.flatMap fun tt => (d.trans tt).activeLocks

/-- `tl->flags |= LWANT`. -/
def want (d : ubik_dbase) (address : ℕ) : ubik_dbase :=
  { d with
    trans := fun tt =>
      { d.trans tt with
        activeLocks := (d.trans tt).activeLocks.map fun tl => if tl.address = address then { tl with want := true } else tl } }

/-- A new lock record at the front of the transaction's. -/
def addLock (d : ubik_dbase) (atrans : ℕ) (apos atype : ℤ) : ubik_dbase :=
  { d with
    trans := Function.update d.trans atrans
      { d.trans atrans with activeLocks := ⟨d.allocated, atype, apos, false⟩ :: (d.trans atrans).activeLocks }
    allocated := d.allocated + 1 }

/-- `ulock_SetLock` from the label `retry` on, up to its end or to the sleep, which gives up both locks. -/
def retry (d : ubik_dbase) (atrans : ℕ) (apos atype : ℤ) (await : Bool) : Option Code × ubik_dbase :=
  match d.locks.findSome? (tryLock apos atype) with
  | some .EINVAL => (some .EINVAL, d)
  | some (.busy tl) =>
    if await then
      (none, { d.want tl.address with sleepers := d.sleepers ++ [⟨atrans, apos, atype, tl.address, false⟩] })
    else (some .EWOULDBLOCK, d)
  | none => (some .ok, d.addLock atrans apos atype)

def ulock_SetLock (d : ubik_dbase) (atrans : ℕ) (apos alen atype : ℤ) (await : Bool) : Option Code × ubik_dbase :=
  if (d.trans atrans).done then (some .UDONE, d)
  else if alen ≠ 1 then (some .EINVAL, d)
  else d.retry atrans apos atype await

/-- Who sleeps on a lock that is wanted is woken up. -/
def ulock_ReleaseAllLocks (d : ubik_dbase) (atrans : ℕ) : ubik_dbase :=
  let wanted := ((d.trans atrans).activeLocks.filter (·.want)).map (·.address)
  { d with
    trans := Function.update d.trans atrans { d.trans atrans with activeLocks := [] }
    sleepers := d.sleepers.map fun w => if wanted.contains w.address then { w with woken := true } else w }

def udisk_begin (d : ubik_dbase) : ubik_dbase :=
  { d with
    trans := Function.update d.trans d.begun ⟨false, []⟩
    activeTrans := d.begun :: d.activeTrans
    begun := d.begun + 1 }

/-- `TRDONE` is set, by `udisk_commit` and by `udisk_abort`. -/
def setDone (d : ubik_dbase) (atrans : ℕ) : ubik_dbase :=
  { d with trans := Function.update d.trans atrans { d.trans atrans with done := true } }

def udisk_end (d : ubik_dbase) (atrans : ℕ) : ubik_dbase :=
  let d := (d.setDone atrans).ulock_ReleaseAllLocks atrans
  { d with activeTrans := d.activeTrans.erase atrans }

def urecovery_AbortAll (d : ubik_dbase) : ubik_dbase := d.activeTrans.foldl setDone d

end ubik_dbase

/-- What the threads do while they hold both locks. A transaction is given to a call only while it is on the list. -/
inductive Step where
  | udisk_begin
  | ulock_SetLock (atrans : ℕ) (apos alen atype : ℤ) (await : Bool)
  /-- The sleeper with the given number was woken and has both locks again. -/
  | awakes (k : ℕ)
  | ulock_ReleaseAllLocks (atrans : ℕ)
  | udisk_commit (atrans : ℕ)
  | udisk_abort (atrans : ℕ)
  | udisk_end (atrans : ℕ)
  | urecovery_AbortAll
  deriving DecidableEq, Repr

def ubik_dbase.onList (d : ubik_dbase) (atrans : ℕ) (after : ubik_dbase) : Option ubik_dbase :=
  if atrans ∈ d.activeTrans then some after else none

def ubik_dbase.step (d : ubik_dbase) : Step → Option ubik_dbase
  | .udisk_begin => some d.udisk_begin
  | .ulock_SetLock atrans apos alen atype await => d.onList atrans (d.ulock_SetLock atrans apos alen atype await).2
  | .awakes k =>
    match d.sleepers[k]? with
    | some w =>
      if w.woken then some ({ d with sleepers := d.sleepers.eraseIdx k }.retry w.atrans w.apos w.atype true).2 else none
    | none => none
  | .ulock_ReleaseAllLocks atrans => d.onList atrans (d.ulock_ReleaseAllLocks atrans)
  | .udisk_commit atrans => d.onList atrans (d.setDone atrans)
  | .udisk_abort atrans => d.onList atrans (d.setDone atrans)
  | .udisk_end atrans => d.onList atrans (d.udisk_end atrans)
  | .urecovery_AbortAll => some d.urecovery_AbortAll

def ubik_dbase.start : ubik_dbase := ⟨fun _ => ⟨false, []⟩, [], 0, 0, []⟩

def ulock : System ubik_dbase Step where
  init d := d = .start
  step := ubik_dbase.step

def Compatible (a b : ubik_lock) : Prop := a.start = b.start → a.type ≠ LOCKWRITE ∧ b.type ≠ LOCKWRITE

/-- No position carries a write lock together with another lock. -/
def Exclusive (d : ubik_dbase) : Prop := d.locks.Pairwise Compatible

/-- A transaction that is on the list and not done. -/
def Active (d : ubik_dbase) (atrans : ℕ) : Prop := atrans ∈ d.activeTrans ∧ (d.trans atrans).done = false

instance (d : ubik_dbase) (atrans : ℕ) : Decidable (Active d atrans) := inferInstanceAs (Decidable (_ ∧ _))

/-- What has got a lock between two states was active in the first. -/
def AddsToActive (d d' : ubik_dbase) : Prop :=
  ∀ tt, (d.trans tt).activeLocks.length < (d'.trans tt).activeLocks.length → Active d tt

/-- A sleeper goes on only while its transaction is active. -/
def goesOnActive (d : ubik_dbase) : Step → Prop
  | .awakes k => ∀ w ∈ d.sleepers[k]?, Active d w.atrans
  | _ => True

instance (d : ubik_dbase) : ∀ i, Decidable (goesOnActive d i)
  | .awakes k => inferInstanceAs (Decidable (∀ w ∈ d.sleepers[k]?, Active d w.atrans))
  | .udisk_begin | .ulock_SetLock .. | .ulock_ReleaseAllLocks _ | .udisk_commit _ | .udisk_abort _ | .udisk_end _
  | .urecovery_AbortAll => isTrue trivial

section Lists

variable {α β : Type} [DecidableEq α] {f : α → List β} {a : α} {l : List α}

theorem flatMap_update_of_notMem (x : List β) (ha : a ∉ l) : l.flatMap (Function.update f a x) = l.flatMap f :=
  List.flatMap_congr fun b hb => Function.update_of_ne (fun h : b = a => ha (h ▸ hb)) ..

theorem flatMap_update_cons (x : β) (ha : a ∈ l) (hl : l.Nodup) :
    (l.flatMap (Function.update f a (x :: f a))).Perm (x :: l.flatMap f) := by
  induction l with
  | nil => exact absurd ha List.not_mem_nil
  | cons b l ih =>
    obtain ⟨hb, hl⟩ := List.nodup_cons.mp hl
    rw [List.flatMap_cons, List.flatMap_cons]
    by_cases hab : a = b
    · subst hab
      rw [Function.update_self, flatMap_update_of_notMem _ hb]
      exact .refl _
    · rw [Function.update_of_ne (Ne.symm hab)]
      have hrest := ih ((List.mem_cons.mp ha).resolve_left hab) hl
      exact (hrest.append_left (f b)).trans List.perm_middle

end Lists

section Steps

variable {d d' : ubik_dbase} {atrans : ℕ} {apos atype : ℤ}

theorem Compatible.symm {a b : ubik_lock} (h : Compatible a b) : Compatible b a := fun hstart => (h hstart.symm).symm

/-- What holds between two steps. -/
structure Inv (d : ubik_dbase) : Prop where
  exclusive : Exclusive d
  nodup : d.activeTrans.Nodup
  known : ∀ tt ∈ d.activeTrans, tt < d.begun

theorem compatible_of_walk (hfree : d.locks.findSome? (tryLock apos atype) = none) (address : ℕ) :
    ∀ tl ∈ d.locks, Compatible ⟨address, atype, apos, false⟩ tl := by
  intro tl htl hstart
  have htry := List.findSome?_eq_none_iff.mp hfree tl htl
  rw [tryLock, if_pos hstart.symm] at htry
  by_cases hread : atype = LOCKREAD
  · rw [if_pos hread] at htry
    refine ⟨fun hwrite => ?_, fun hwrite => ?_⟩
    · exact absurd (hread.symm.trans hwrite) (by decide)
    · rw [if_pos hwrite] at htry
      exact absurd htry (Option.some_ne_none _)
  · rw [if_neg hread] at htry
    split at htry <;> exact absurd htry (Option.some_ne_none _)

theorem locks_want (address : ℕ) :
    (d.want address).locks = d.locks.map fun tl => if tl.address = address then { tl with want := true } else tl := by
  rw [ubik_dbase.locks, ubik_dbase.locks, List.map_flatMap]
  rfl

theorem exclusive_want (address : ℕ) (h : Exclusive d) : Exclusive (d.want address) := by
  rw [Exclusive, locks_want, List.pairwise_map]
  refine h.imp fun {a b} hab => ?_
  have hkeeps : ∀ tl : ubik_lock, (if tl.address = address then { tl with want := true } else tl).start = tl.start ∧
      (if tl.address = address then { tl with want := true } else tl).type = tl.type := by
    intro tl
    split <;> exact ⟨rfl, rfl⟩
  rw [Compatible, (hkeeps a).1, (hkeeps a).2, (hkeeps b).1, (hkeeps b).2]
  exact hab

theorem locks_update (tt : ubik_trans) : ({ d with trans := Function.update d.trans atrans tt } : ubik_dbase).locks =
    d.activeTrans.flatMap (Function.update (fun t => (d.trans t).activeLocks) atrans tt.activeLocks) := by
  refine List.flatMap_congr fun t _ => ?_
  by_cases ht : t = atrans
  · subst ht
    simp
  · simp [ht]

theorem exclusive_addLock (h : Inv d) (hactive : atrans ∈ d.activeTrans)
    (hfree : d.locks.findSome? (tryLock apos atype) = none) : Exclusive (d.addLock atrans apos atype) := by
  have hlocks : (d.addLock atrans apos atype).locks.Perm (⟨d.allocated, atype, apos, false⟩ :: d.locks) := by
    have hadded := flatMap_update_cons (f := fun t => (d.trans t).activeLocks) ⟨d.allocated, atype, apos, false⟩ hactive h.nodup
    rw [← locks_update { d.trans atrans with activeLocks := _ }] at hadded
    exact hadded
  rw [Exclusive, hlocks.pairwise_iff fun hab => hab.symm, List.pairwise_cons]
  exact ⟨compatible_of_walk hfree _, h.exclusive⟩

theorem Inv.retry (h : Inv d) (hactive : atrans ∈ d.activeTrans) (await : Bool) : Inv (d.retry atrans apos atype await).2 := by
  rw [ubik_dbase.retry]
  cases hwalk : d.locks.findSome? (tryLock apos atype) with
  | none => exact ⟨exclusive_addLock h hactive hwalk, h.nodup, h.known⟩
  | some stop =>
    cases stop with
    | EINVAL => exact h
    | busy tl =>
      cases await with
      | false => exact h
      | true => exact ⟨exclusive_want tl.address h.exclusive, h.nodup, h.known⟩

theorem retry_adds (await : Bool) (tt : ℕ)
    (hmore : (d.trans tt).activeLocks.length < ((d.retry atrans apos atype await).2.trans tt).activeLocks.length) : tt = atrans := by
  rw [ubik_dbase.retry] at hmore
  cases hwalk : d.locks.findSome? (tryLock apos atype) with
  | none =>
    by_contra hne
    rw [hwalk] at hmore
    simp only [ubik_dbase.addLock, Function.update_of_ne hne] at hmore
    exact Nat.lt_irrefl _ hmore
  | some stop =>
    rw [hwalk] at hmore
    exfalso
    cases stop with
    | EINVAL => exact Nat.lt_irrefl _ hmore
    | busy tl =>
      cases await with
      | false => exact Nat.lt_irrefl _ hmore
      | true => simp [ubik_dbase.want] at hmore

theorem Inv.fewer (h : Inv d) (htrans : d'.activeTrans.Sublist d.activeTrans) (hbegun : d'.begun = d.begun)
    (hlocks : ∀ tt, (d'.trans tt).activeLocks.Sublist (d.trans tt).activeLocks) : Inv d' ∧ AddsToActive d d' := by
  refine ⟨⟨?_, h.nodup.sublist htrans, fun tt htt => hbegun ▸ h.known tt (htrans.subset htt)⟩, fun tt hmore => ?_⟩
  · exact h.exclusive.sublist ((List.Sublist.flatMap_right _ fun tt _ => hlocks tt).trans (htrans.flatMap _))
  · exact absurd (hlocks tt).length_le (Nat.not_le_of_lt hmore)

theorem setDone_sublist (tt : ℕ) : ((d.setDone atrans).trans tt).activeLocks.Sublist (d.trans tt).activeLocks := by
  by_cases htt : tt = atrans
  · subst htt
    simp [ubik_dbase.setDone]
  · simp [ubik_dbase.setDone, htt]

theorem released_sublist (tt : ℕ) :
    ((d.ulock_ReleaseAllLocks atrans).trans tt).activeLocks.Sublist (d.trans tt).activeLocks := by
  by_cases htt : tt = atrans
  · subst htt
    simp [ubik_dbase.ulock_ReleaseAllLocks]
  · simp [ubik_dbase.ulock_ReleaseAllLocks, htt]

theorem abortAll_fewer (l : List ℕ) : (l.foldl ubik_dbase.setDone d).activeTrans = d.activeTrans ∧
    (l.foldl ubik_dbase.setDone d).begun = d.begun ∧
      ∀ tt, ((l.foldl ubik_dbase.setDone d).trans tt).activeLocks.Sublist (d.trans tt).activeLocks := by
  induction l generalizing d with
  | nil => exact ⟨rfl, rfl, fun _ => .refl _⟩
  | cons t l ih =>
    obtain ⟨htrans, hbegun, hlocks⟩ := ih (d := d.setDone t)
    exact ⟨htrans, hbegun, fun tt => (hlocks tt).trans (setDone_sublist tt)⟩

theorem onList_eq {after : ubik_dbase} (hstep : d.onList atrans after = some d') : atrans ∈ d.activeTrans ∧ after = d' := by
  rw [ubik_dbase.onList] at hstep
  obtain ⟨hguard, hstep⟩ := Option.ite_none_right_eq_some.mp hstep
  exact ⟨‹_›, Option.some.inj hstep⟩

theorem Inv.step {i : Step} (h : Inv d) (hallowed : goesOnActive d i) (hstep : d.step i = some d') :
    Inv d' ∧ AddsToActive d d' := by
  cases i with
  | udisk_begin =>
    obtain rfl := Option.some.inj hstep
    have hfresh : d.begun ∉ d.activeTrans := fun hmem => Nat.lt_irrefl _ (h.known _ hmem)
    refine ⟨⟨?_, List.nodup_cons.mpr ⟨hfresh, h.nodup⟩, fun tt htt => ?_⟩, fun tt hmore => ?_⟩
    · have hlocks : d.udisk_begin.locks = d.locks := by
        have hsame := @locks_update { d with activeTrans := d.begun :: d.activeTrans } d.begun ⟨false, []⟩
        rw [List.flatMap_cons, Function.update_self, List.nil_append, flatMap_update_of_notMem _ hfresh] at hsame
        exact hsame
      rw [Exclusive, hlocks]
      exact h.exclusive
    · rcases List.mem_cons.mp htt with rfl | htt
      · exact Nat.lt_succ_self _
      · exact Nat.lt_succ_of_lt (h.known tt htt)
    · exfalso
      by_cases htt : tt = d.begun
      · subst htt
        simp [ubik_dbase.udisk_begin] at hmore
      · simp [ubik_dbase.udisk_begin, htt] at hmore
  | ulock_SetLock atrans apos alen atype await =>
    obtain ⟨hmem, rfl⟩ := onList_eq hstep
    have hsame : Inv d ∧ AddsToActive d d := h.fewer (.refl _) rfl fun _ => .refl _
    rw [ubik_dbase.ulock_SetLock]
    by_cases hdone : (d.trans atrans).done = true
    · rw [if_pos hdone]
      exact hsame
    · rw [if_neg hdone]
      by_cases hlen : alen ≠ 1
      · rw [if_pos hlen]
        exact hsame
      · rw [if_neg hlen]
        refine ⟨h.retry hmem await, fun tt hmore => ?_⟩
        obtain rfl := retry_adds await tt hmore
        exact ⟨hmem, Bool.eq_false_iff.mpr hdone⟩
  | awakes k =>
    rw [ubik_dbase.step] at hstep
    cases hsleeper : d.sleepers[k]? with
    | none =>
      rw [hsleeper] at hstep
      exact absurd hstep.symm (Option.some_ne_none _)
    | some w =>
      rw [hsleeper] at hstep
      have hactive := hallowed w hsleeper
      dsimp only at hstep
      obtain ⟨-, hstep⟩ := Option.ite_none_right_eq_some.mp hstep
      obtain rfl := Option.some.inj hstep
      have herased : Inv { d with sleepers := d.sleepers.eraseIdx k } := ⟨h.exclusive, h.nodup, h.known⟩
      refine ⟨herased.retry hactive.1 true, fun tt hmore => ?_⟩
      exact retry_adds (d := { d with sleepers := d.sleepers.eraseIdx k }) true tt hmore ▸ hactive
  | ulock_ReleaseAllLocks atrans =>
    obtain ⟨-, rfl⟩ := onList_eq hstep
    exact h.fewer (.refl _) rfl released_sublist
  | udisk_commit atrans | udisk_abort atrans =>
    obtain ⟨-, rfl⟩ := onList_eq hstep
    exact h.fewer (.refl _) rfl setDone_sublist
  | udisk_end atrans =>
    obtain ⟨-, rfl⟩ := onList_eq hstep
    exact h.fewer List.erase_sublist rfl fun tt => (released_sublist tt).trans (setDone_sublist tt)
  | urecovery_AbortAll =>
    obtain rfl := Option.some.inj hstep
    obtain ⟨htrans, hbegun, hlocks⟩ := abortAll_fewer (d := d) d.activeTrans
    exact h.fewer (htrans ▸ .refl _) hbegun hlocks

end Steps

/-- In a run in which no caller goes on from its sleep for a transaction that was committed, aborted or ended meanwhile, no
position ever carries a write lock together with another lock, and every lock is added to an active transaction. -/
theorem locks_of_active_transactions {d : ubik_dbase} (hreach : (ulock.restrict goesOnActive).Reachable d) :
    Exclusive d ∧ ∀ i d', (ulock.restrict goesOnActive).step d i = some d' → AddsToActive d d' := by
  have hinv : Inv d := by
    refine hreach.invariant (P := Inv) (fun d hinit => ?_) fun d i d' h hstep => ?_
    · obtain rfl : d = .start := hinit
      exact ⟨.nil, .nil, fun _ hmem => absurd hmem List.not_mem_nil⟩
    · obtain ⟨hallowed, hstep⟩ := System.restrict_step hstep
      exact (h.step hallowed hstep).1
  refine ⟨hinv.exclusive, fun i d' hstep => ?_⟩
  obtain ⟨hallowed, hstep⟩ := System.restrict_step hstep
  exact (hinv.step hallowed hstep).2

theorem locks_of_active_transactions_waiting :
    ∃ d, (ulock.restrict goesOnActive).Reachable d ∧ (d.locks.map fun tl => (tl.type, tl.start)) = [(LOCKREAD, 7)] ∧
      Exclusive d ∧ ∀ i d', (ulock.restrict goesOnActive).step d i = some d' → AddsToActive d d' := by
  obtain ⟨d, hreach, hlocks⟩ := (ulock.restrict goesOnActive).exists_reachable_of_exec (s := .start)
    [.udisk_begin, .udisk_begin, .ulock_SetLock 0 7 1 LOCKWRITE true, .ulock_SetLock 1 7 1 LOCKREAD true, .udisk_commit 0,
      .udisk_end 0, .awakes 0]
    (P := fun d => (d.locks.map fun tl => (tl.type, tl.start)) = [(LOCKREAD, 7)]) rfl (by decide)
  exact ⟨d, hreach, of_decide_eq_true hlocks, locks_of_active_transactions hreach⟩

/-- The recovery thread aborts both transactions while one waits for the other: the waiting one gets its lock although it is done. -/
theorem lock_after_abort : ¬ ∀ d, ulock.Reachable d → Exclusive d ∧ ∀ i d', ulock.step d i = some d' → AddsToActive d d' := by
  intro hall
  obtain ⟨d, hreach, hlate⟩ := ulock.exists_reachable_of_exec (s := .start)
    [.udisk_begin, .udisk_begin, .ulock_SetLock 0 7 1 LOCKWRITE true, .ulock_SetLock 1 7 1 LOCKREAD true, .urecovery_AbortAll,
      .udisk_end 0]
    (P := fun d => (d.trans 1).done && (d.step (.awakes 0)).any fun d' =>
      decide ((d.trans 1).activeLocks.length < (d'.trans 1).activeLocks.length)) rfl (by decide)
  obtain ⟨hdone, hmore⟩ := Bool.and_eq_true_iff.mp hlate
  obtain ⟨d', hstep, hmore⟩ := (Option.any_eq_true _ _).mp hmore
  have hactive := (hall d hreach).2 (.awakes 0) d' hstep 1 (of_decide_eq_true hmore)
  exact absurd (hdone.symm.trans hactive.2) (by decide)

end dce.ubik.ulocks
