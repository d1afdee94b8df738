import Dce.Epi.TranStart
import Mathlib.Algebra.Group.Action.Defs
import Mathlib.Tactic.NormNum.DivMod
import Mathlib.Tactic.NormNum.Pow

open lib

namespace dce.episode.trans

variable {Dev : Type} [DecidableEq Dev] {w w' : World Dev}

namespace World

variable (w : World Dev)

/-- The transaction has been started, and its record is not free. -/
def Existing (tP : ℕ) : Prop := (w.tran tP).tranStatus ≠ .FREE

def Active (tP : ℕ) : Prop := (w.tran tP).tranStatus = .ACTIVE

def Unfinished (tP : ℕ) : Prop := (w.tran tP).tranStatus = .ACTIVE ∨ (w.tran tP).tranStatus = .PENDING

instance : DecidablePred w.Existing := fun _ => inferInstanceAs (Decidable (_ ≠ _))

instance : DecidablePred w.Active := fun _ => inferInstanceAs (Decidable (_ = _))

instance : DecidablePred w.Unfinished := fun _ => inferInstanceAs (Decidable (_ ∨ _))

/-- The transactions of which `r` is the root. -/
def members (r : ℕ) : List ℕ := (List.range w.allocated).filter fun x => w.Existing x ∧ w.GetECHead x = r

/-- The bytes that the active and pending transactions of a log have reserved, each counted once. -/
def reservations (dP : Dev) : ℕ :=
  (((List.range w.allocated).filter fun x => w.Unfinished x ∧ (w.tran x).mapP = some dP).map fun x =>
    (w.tran x).reserved.toNat).sum

/-- The bookkeeping of the equivalence classes is right. -/
structure WellKept : Prop where
  /-- The links form a forest, and `GetECHead` comes to the root. -/
  rooted : ∀ x, w.Existing x → RootOf w.heads x (w.GetECHead x)
  /-- The size of a class is the number of its active members. -/
  sizes : ∀ r, w.Existing r → w.heads r = r → (w.tran r).ecSize = (w.members r).countP w.Active
  /-- The list of a class that is not complete has the other members, each once. -/
  lists : ∀ r, w.Unfinished r → w.heads r = r → (r :: (w.tran r).ecList).Perm (w.members r)
  /-- Two transactions have one root when the merges relate them, and only then. -/
  related : ∀ x y, w.Existing x → w.Existing y →
    (w.GetECHead x = w.GetECHead y ↔ Relation.EqvGen (fun a b => (a, b) ∈ mergesOf w.trace) x y)
  /-- Every transaction is active, then perhaps pending, and then complete, each once. -/
  statuses : ∀ x, statusAfter x w.trace = some (w.tran x).tranStatus
  /-- The bytes that a log has reserved. -/
  reserved : ∀ dP, (w.map dP).reserved.toNat = w.reservations dP % 2 ^ 32

/-- What a call does to the statuses. The transaction that ends while others of its class are active becomes pending; when the
last one ends all members are complete, behind a batch end record for each member but the root and the end record of the root.
No other call ends a transaction. -/
def EndsRight (c : Call Dev) (w' : World Dev) : Prop :=
  match c with
  | .elbt_EndTran _ tP _ _ =>
    let r := w.GetECHead tP
    w.Active tP ∧
      (1 < (w.members r).countP w.Active ∧ w'.trace = w.trace ++ [.pended tP] ∧
          (∀ x, (w'.tran x).tranStatus = if x = tP then .PENDING else (w.tran x).tranStatus) ∨
        (w.members r).countP w.Active = 1 ∧
          (∃ others, (r :: others).Perm (w.members r) ∧ w'.trace = w.trace ++ endEvents r others) ∧
          ∀ x, (w'.tran x).tranStatus = if x ∈ w.members r then .COMPLETE else (w.tran x).tranStatus)
  | _ => ∀ x, w.Unfinished x → (w'.tran x).tranStatus = (w.tran x).tranStatus

end World

theorem Kept.mem_members (h : Kept w) {x r : ℕ} : x ∈ w.members r ↔ w.classes.Existing x ∧ RootOf w.heads x r := by
  rw [World.members, List.mem_filter, List.mem_range, decide_eq_true_eq]
  constructor
  · rintro ⟨-, hx, rfl⟩
    exact ⟨hx, h.root hx⟩
  · rintro ⟨hx, hr⟩
    exact ⟨h.toBooks.lt_allocated hx, hx, (h.root hx).unique hr⟩

theorem Kept.members_perm (h : Kept w) {r : ℕ} (hr : w.heads r = r) (hunf : w.classes.Unfinished r) :
    (r :: (w.tran r).ecList).Perm (w.members r) := by
  refine (List.perm_ext_iff_of_nodup (h.classes.nodup_class hr hunf) (List.nodup_range.filter _)).mpr fun x => ?_
  exact (h.classes.mem_class hr hunf).trans h.mem_members.symm

theorem Kept.sizes_eq (h : Kept w) {r : ℕ} (hex : w.classes.Existing r) (hr : w.heads r = r) :
    (w.tran r).ecSize = (w.members r).countP w.Active := by
  by_cases hdone : (w.tran r).tranStatus = .COMPLETE
  · rw [show (w.tran r).ecSize = 0 from (h.classes.done r hr hdone).2]
    refine (List.countP_eq_zero.mpr fun x hx => ?_).symm
    obtain ⟨hxe, hxr⟩ := h.mem_members.mp hx
    have hxdone : (w.tran x).tranStatus = .COMPLETE := (h.classes.finished_root hxe hxr).mp hdone
    rw [decide_eq_true_eq, World.Active, hxdone]
    decide
  · have hunf : w.classes.Unfinished r := Classes.unfinished_iff.mpr ⟨hex, hdone⟩
    exact (h.classes.sizes r hr hunf).trans ((h.members_perm hr hunf).countP_eq _)

theorem sum_toNat (l : List ℕ) (f : ℕ → BitVec 32) : (l.map f).sum.toNat = (l.map fun x => (f x).toNat).sum % 2 ^ 32 := by
  induction l with
  | nil => rfl
  | cons x l ih =>
    rw [List.map_cons, List.sum_cons, BitVec.toNat_add, ih, List.map_cons, List.sum_cons, Nat.add_mod_mod]

theorem Kept.reserved_eq (h : Kept w) (dP : Dev) : (w.map dP).reserved.toNat = w.reservations dP % 2 ^ 32 := by
  have hsum : w.total dP = (((List.range w.allocated).filter fun x => w.Unfinished x ∧ (w.tran x).mapP = some dP).map
      fun x => (w.tran x).reserved).sum := by
    rw [World.total]
    change (Multiset.map _ (Multiset.range w.allocated)).sum = _
    rw [Multiset.range, Multiset.map_coe, Multiset.sum_coe]
    induction List.range w.allocated with
    | nil => rfl
    | cons x l ih =>
      rw [List.map_cons, List.sum_cons, ih]
      by_cases hx : w.Unfinished x ∧ (w.tran x).mapP = some dP
      · rw [List.filter_cons, if_pos (decide_eq_true hx), List.map_cons, List.sum_cons, held_unfinished hx.2 hx.1]
      · rw [List.filter_cons, if_neg fun hc => hx (of_decide_eq_true hc), elbt_TranRec.held, if_neg fun hc => hx ⟨hc.2, hc.1⟩, zero_add]
  rw [h.reserved, hsum, sum_toNat]
  rfl

theorem Kept.wellKept (h : Kept w) : w.WellKept where
  rooted _ hx := h.root hx
  sizes _ hr hself := h.sizes_eq hr hself
  lists _ hr hself := h.members_perm hself hr
  related x y hx hy := by
    refine Iff.trans ?_ (h.classes.same_iff hx hy)
    constructor
    · exact fun heq => ⟨w.GetECHead y, heq ▸ h.root hx, h.root hy⟩
    · rintro ⟨r, hxr, hyr⟩
      rw [(h.root hx).unique hxr, (h.root hy).unique hyr]
  statuses := h.trace
  reserved := h.reserved_eq

theorem elbt_EndTran_right {tranId : BitVec 32} {tP : ℕ} {bytes : BitVec 32} {pos : LogPosition} (h : Kept w)
    (hend : elbt_EndTran w tranId tP bytes pos = some w') : w.EndsRight (.elbt_EndTran tranId tP bytes pos) w' := by
  unfold elbt_EndTran at hend
  split_ifs at hend with hfound
  have hended := endTran_ended h hend
  have hactive := hended.active
  have hex : w.classes.Existing tP := fun hfree => absurd (hactive.symm.trans hfree) (by decide)
  have hroot := h.root hex
  have hrex : w.classes.Existing (w.GetECHead tP) := h.classes.existing_root hex hroot
  have hunf : w.classes.Unfinished (w.GetECHead tP) := h.classes.unfinished_root (.inl hactive) hroot
  have hself : w.heads (w.GetECHead tP) = w.GetECHead tP := hroot.isRoot
  have hsize := h.sizes_eq hrex hself
  have hperm := h.members_perm hself hunf
  refine ⟨hactive, ?_⟩
  rcases hended.outcome with ⟨hmore, hclasses, htrace⟩ | ⟨hone, hclasses, htrace⟩
  · refine .inl ⟨hsize ▸ hmore, htrace, fun x => ?_⟩
    exact (congrFun (congrArg (·.status) hclasses) x).trans (Function.update_apply ..)
  · refine .inr ⟨hsize ▸ hone, ⟨_, hperm, htrace⟩, fun x => ?_⟩
    refine (congrFun (congrArg (·.status) hclasses) x).trans ?_
    simp only [← hperm.mem_iff]
    rfl

/-- A call of another kind leaves the unfinished transactions as they are. -/
def Quiet (w w' : World Dev) : Prop := ∀ x, w.Unfinished x → (w'.tran x).tranStatus = (w.tran x).tranStatus

omit [DecidableEq Dev] in
theorem Quiet.comp {mid : World Dev} (h : Quiet w mid) (h' : Quiet mid w') : Quiet w w' := by
  intro x hx
  have hmid := h x hx
  have hxmid : mid.Unfinished x := by
    unfold World.Unfinished
    rwa [hmid]
  exact (h' x hxmid).trans hmid

omit [DecidableEq Dev] in
theorem Quiet.of_other {i : ℕ} (hi : ¬w.Unfinished i) (h : ∀ x, x ≠ i → w'.tran x = w.tran x) : Quiet w w' := by
  intro x hx
  rw [h x]
  rintro rfl
  exact hi hx

theorem allocTran_quiet {dP : Dev} {force full : Bool} {pos : LogPosition} (h : Kept w)
    (halloc : allocTran w dP force full pos = some w') : Quiet w w' := by
  have htaken := takeRecord_taken h.toBooks
  obtain ⟨mid, hmid, hrest⟩ := Option.bind_eq_some_iff.mp halloc
  obtain ⟨htran, -⟩ := initTran_some hmid
  have hmidOther : ∀ x, x ≠ (takeRecord w).1 → mid.tran x = w.tran x := by
    intro x hx
    rw [htran, Function.update_of_ne hx]
    exact htaken.tran x hx
  refine Quiet.of_other (i := (takeRecord w).1) (fun hunf => ?_) fun x hx => ?_
  · exact (Classes.unfinished_iff.mp (show w.classes.Unfinished _ from hunf)).1 htaken.was
  · split_ifs at hrest with hfull
    · obtain ⟨done, hdone, hfreed⟩ := Option.bind_eq_some_iff.mp hrest
      obtain ⟨hdoneTran, -⟩ := CompleteTran_unlogged (by rw [setTran_tran, if_pos rfl]) hdone
      obtain ⟨-, -, hfreedTran, -⟩ := DeallocTran_some hfreed
      rw [hfreedTran, Function.update_of_ne hx, hdoneTran, Function.update_of_ne hx, setTran_tran, if_neg hx]
      exact hmidOther x hx
    · rw [← Option.some.inj hrest, elbl_StartTran_tran, Function.update_of_ne hx]
      exact hmidOther x hx

theorem elbt_GCTran_quiet {dP : Dev} {committed : LogPosition → Bool} (h : Kept w)
    (hgc : elbt_GCTran w dP committed = some w') : Quiet w w' := by
  obtain ⟨l, hmem, hswept⟩ := elbt_GCTran_swept h.toBooks hgc
  intro x hx
  have hnot : x ∉ l := fun hxl =>
    (Classes.unfinished_iff.mp (show w.classes.Unfinished x from hx)).2 ((hmem x).mp hxl).1
  rw [hswept.tran, if_neg hnot]

theorem collect_quiet {gc : List (Dev × (LogPosition → Bool))} (h : Kept w) (hgc : collect gc w = some w') : Quiet w w' := by
  induction gc generalizing w with
  | nil => exact Option.some.inj hgc ▸ fun _ _ => rfl
  | cons first gc ih =>
    obtain ⟨mid, hmid, hgc⟩ := Option.bind_eq_some_iff.mp hgc
    exact (elbt_GCTran_quiet h hmid).comp (ih (elbt_GCTran_kept h hmid) hgc)

omit [DecidableEq Dev] in
theorem fold_status (w : World Dev) (ec1P ec2P x : ℕ) : ((fold w ec1P ec2P).tran x).tranStatus = (w.tran x).tranStatus := by
  rw [fold, setTran_tran, setTran_tran]
  split_ifs with hx₁ hx₂
  · rw [hx₁]
  · rw [hx₂]
  · rfl

theorem ecMerge_quiet {t₁ t₂ : ℕ} (hmerge : ecMerge w t₁ t₂ = some w') : Quiet w w' := by
  intro x _
  unfold ecMerge at hmerge
  dsimp only at hmerge
  split_ifs at hmerge
  · rw [← Option.some.inj hmerge]
  · rw [← Option.some.inj hmerge]
    rfl
  · rw [← Option.some.inj hmerge, fold_status]
    rfl
  · rw [← Option.some.inj hmerge, fold_status]
    rfl

theorem call_endsRight {c : Call Dev} (h : Kept w) (hcall : call w c = some w') : w.EndsRight c w' := by
  cases c with
  | elbt_StartTran dP force full pos gc =>
    change elbt_StartTran w dP force full pos gc = some w' at hcall
    unfold elbt_StartTran at hcall
    split_ifs at hcall with hcollect
    · obtain ⟨mid, hmid, hrest⟩ := Option.bind_eq_some_iff.mp hcall
      exact (collect_quiet h hmid).comp (allocTran_quiet (collect_kept h hmid) hrest)
    · exact allocTran_quiet h hcall
  | elbt_ECMerge tran1 tran2 found1 found2 =>
    change elbt_ECMerge w tran1 tran2 found1 found2 = some w' at hcall
    unfold elbt_ECMerge at hcall
    cases found1 with
    | none =>
      have hsame : some w = some w' := by
        split_ifs at hcall
        · exact hcall
        · exact hcall
        · exact hcall
      exact Option.some.inj hsame ▸ fun _ _ => rfl
    | some t₁ =>
      rw [Option.elim_some] at hcall
      split_ifs at hcall
      · exact Option.some.inj hcall ▸ fun _ _ => rfl
      · exact ecMerge_quiet hcall
  | elbt_EndTran tranId found bytes pos => exact elbt_EndTran_right h hcall
  | elbt_GCTran dP committed => exact elbt_GCTran_quiet h hcall
  | logUpdate tP bytes pos =>
    change logUpdate w tP bytes pos = some w' at hcall
    unfold logUpdate at hcall
    split_ifs at hcall with hactive
    intro x _
    rw [← Option.some.inj hcall, setTran_tran]
    split_ifs with hx
    · rw [hx]
    · rfl

/-- After every run of calls the classes, the statuses and the reservations are right, and every call ends the transactions that
it should end. -/
theorem classes_well_kept (w : World Dev) (h : transactions.Reachable w) :
    w.WellKept ∧ ∀ c w', call w c = some w' → w.EndsRight c w' :=
  ⟨(reachable_kept h).wellKept, fun _ _ hcall => call_endsRight (reachable_kept h) hcall⟩

def quietLog : logMap where
  aTranList := []
  pTranList := []
  cTranList := []
  tranAgeQ := []
  reserved := 0
  maxTranSize := 40960
  maxEndSize := 64
  maxUndoSize := 512
  logLocnArraySize := 100
  blkSize := 8192

def quietWorld : World Unit where
  tran _ := zeroed
  allocated := 0
  tranFreeList := []
  tranActiveList := []
  tranPendingList := []
  tranCompleteList := []
  tranHashTable := []
  elbt_GlobalTranId := 0xfffffff6
  map _ := quietLog
  trace := []

theorem quietWorld_initial : quietWorld.Initial :=
  ⟨rfl, rfl, ⟨rfl, rfl, rfl, rfl⟩, rfl, fun _ => ⟨⟨rfl, rfl, rfl, rfl⟩, rfl, rfl, rfl⟩, rfl⟩

def startCall (force : Bool) : Call Unit := .elbt_StartTran () force false ⟨1, 0⟩ []

def mergedRun : List (Call Unit) :=
  [startCall false, startCall false, .elbt_ECMerge 0xfffffff7 0xfffffff8 (some 0) 1, .elbt_EndTran 0xfffffff7 0 0 ⟨1, 1⟩,
    .elbt_EndTran 0xfffffff8 1 200 ⟨1, 2⟩]

theorem classes_well_kept_merged : ∃ w, transactions.exec quietWorld mergedRun = some w ∧ w.WellKept ∧
    ∀ c w', call w c = some w' → w.EndsRight c w' := by
  obtain ⟨w, hw⟩ := Option.isSome_iff_exists.mp (show (transactions.exec quietWorld mergedRun).isSome by decide +kernel)
  exact ⟨w, hw, classes_well_kept w (System.reachable_of_exec mergedRun quietWorld_initial hw)⟩

/-- Some nested transactions run, and nothing else. -/
structure Nested (n : ℕ) (w : World Unit) : Prop where
  reachable : transactions.Reachable w
  allocated : w.allocated = n
  lists : w.tranFreeList = [] ∧ w.tranCompleteList = []
  running : ∀ x, x < n → (w.tran x).tranStatus = .ACTIVE ∧ (w.tran x).mapP = some () ∧ (w.tran x).reserved = 512
  size : (w.map ()).maxUndoSize = 512

theorem Nested.start {n : ℕ} {w : World Unit} (h : Nested n w) : ∃ w', Nested (n + 1) w' := by
  obtain ⟨taken, htake, htran, hmap, halloc, hfree, hcomplete⟩ : ∃ taken, takeRecord w = (n, taken) ∧
      taken.tran = Function.update w.tran n zeroed ∧ taken.map = w.map ∧ taken.allocated = n + 1 ∧ taken.tranFreeList = [] ∧
        taken.tranCompleteList = [] := by
    unfold takeRecord
    rw [h.lists.1, h.allocated]
    exact ⟨_, rfl, rfl, rfl, rfl, h.lists.1, h.lists.2⟩
  have hself : (taken.tran n).tranStatus = .FREE := by
    rw [htran, Function.update_self]
    rfl
  obtain ⟨mid, hmid⟩ : ∃ mid, initTran taken n true = some mid := ⟨_, if_pos hself⟩
  obtain ⟨hmidTran, hmidMap, hmidAlloc, hmidFree, -⟩ := initTran_some hmid
  have hmidComplete : mid.tranCompleteList = taken.tranCompleteList := by
    rw [initTran, if_pos hself] at hmid
    rw [← Option.some.inj hmid]
    rfl
  have hcall : transactions.step w (startCall true) = some (elbl_StartTran mid () n ⟨1, 0⟩) := by
    change elbt_StartTran w () true false ⟨1, 0⟩ [] = _
    have hfull : ¬(w.tranFreeList = [] ∧ w.tranCompleteList ≠ []) := fun hc => hc.2 h.lists.2
    rw [elbt_StartTran, if_neg hfull, allocTran, htake]
    dsimp only
    rw [hmid]
    rfl
  have hsize : (mid.map ()).maxUndoSize = 512 := by
    rw [hmidMap, hmap]
    exact h.size
  refine ⟨_, h.reachable.step hcall, hmidAlloc.trans halloc, ⟨hmidFree.trans hfree, hmidComplete.trans hcomplete⟩,
    fun x hx => ?_, hsize⟩
  rw [elbl_StartTran_tran, hmidTran, Function.update_self, Function.update_idem, Function.update_apply]
  by_cases hxn : x = n
  · rw [if_pos hxn]
    exact ⟨rfl, rfl, hsize⟩
  · rw [if_neg hxn, htran, Function.update_of_ne hxn]
    exact h.running x (by omega)

theorem exists_nested (n : ℕ) : ∃ w, Nested n w := by
  induction n with
  | zero => exact ⟨quietWorld, .init quietWorld_initial, rfl, ⟨rfl, rfl⟩, fun x hx => absurd hx (Nat.not_lt_zero x), rfl⟩
  | succ n ih =>
    obtain ⟨w, hw⟩ := ih
    exact hw.start

theorem Nested.reservations {n : ℕ} {w : World Unit} (h : Nested n w) : w.reservations () = n * 512 := by
  have hall : (List.range w.allocated).filter (fun x => w.Unfinished x ∧ (w.tran x).mapP = some ()) = List.range n := by
    rw [h.allocated]
    refine List.filter_eq_self.mpr fun x hx => decide_eq_true ?_
    have hrun := h.running x (List.mem_range.mp hx)
    exact ⟨.inl hrun.1, hrun.2.1⟩
  have hbytes : (List.range n).map (fun x => (w.tran x).reserved.toNat) = (List.range n).map fun _ => 512 :=
    List.map_congr_left fun x hx => by rw [(h.running x (List.mem_range.mp hx)).2.2]; rfl
  rw [World.reservations, hall, hbytes, List.map_const', List.sum_replicate, List.length_range, smul_eq_mul]

/-- The list of a class is empty when the class is complete, and the reservations are counted in 32 bits. -/
theorem list_emptied_and_reservations_wrap :
    (∃ w : World Unit, transactions.Reachable w ∧ ∃ r, w.Existing r ∧ w.heads r = r ∧
      ¬(r :: (w.tran r).ecList).Perm (w.members r)) ∧
    ∃ w : World Unit, transactions.Reachable w ∧ (w.map ()).reserved.toNat ≠ w.reservations () := by
  constructor
  · obtain ⟨w, hw, hP⟩ := transactions.exists_reachable_of_exec (s := quietWorld) mergedRun
      (P := fun w => decide (w.Existing 1 ∧ w.heads 1 = 1 ∧ (w.tran 1).ecList.length + 1 ≠ (w.members 1).length))
      quietWorld_initial (by decide +kernel)
    obtain ⟨hexists, hroot, hlength⟩ := of_decide_eq_true hP
    exact ⟨w, hw, 1, hexists, hroot, fun hperm => hlength hperm.length_eq⟩
  · obtain ⟨w, hw⟩ := exists_nested (2 ^ 23)
    refine ⟨w, hw.reachable, ?_⟩
    rw [(reachable_kept hw.reachable).reserved_eq, hw.reservations]
    norm_num

end dce.episode.trans
