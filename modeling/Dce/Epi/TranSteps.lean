import Mathlib.Algebra.BigOperators.Group.Finset.Piecewise
import Dce.Epi.EquivalenceClasses

open lib

namespace dce.episode.trans

variable {Dev : Type} [DecidableEq Dev]

/-- What a record says of itself agrees with its status. -/
structure elbt_TranRec.Flagged (t : elbt_TranRec Dev) : Prop where
  atran : t.atran = true ↔ t.mapP ≠ none ∧ t.tranStatus = .ACTIVE
  ptran : t.ptran = true ↔ t.mapP ≠ none ∧ t.tranStatus = .PENDING
  ctran : t.ctran = true ↔ t.mapP ≠ none ∧ t.tranStatus = .COMPLETE
  free : t.tranStatus = .FREE → t.mapP = none

def elbt_TranRec.held (t : elbt_TranRec Dev) (dP : Dev) : BitVec 32 :=
  if t.mapP = some dP ∧ (t.tranStatus = .ACTIVE ∨ t.tranStatus = .PENDING) then t.reserved else 0

/-- The reservations of the active and pending transactions of a log, each counted once. -/
def World.total (w : World Dev) (dP : Dev) : BitVec 32 := ∑ tP ∈ Finset.range w.allocated, (w.tran tP).held dP

/-- The status of a transaction after an event; `none` when the event does not go with the status. A freed record begins a new
transaction. -/
def nextStatus (tP : ℕ) : Option TranStatus → Event → Option TranStatus
  | s, .started x => if x = tP then (if s = some .FREE then some .ACTIVE else none) else s
  | s, .pended x => if x = tP then (if s = some .ACTIVE then some .PENDING else none) else s
  | s, .completed x =>
    if x = tP then (if s = some .ACTIVE ∨ s = some .PENDING then some .COMPLETE else none) else s
  | s, .freed x => if x = tP then (if s = some .COMPLETE then some .FREE else none) else s
  | s, .merged _ _ => s
  | s, .bend _ _ => s
  | s, .written _ => s

def statusAfter (tP : ℕ) (trace : List Event) : Option TranStatus := trace.foldl (nextStatus tP) (some .FREE)

theorem statusAfter_append (tP : ℕ) (trace es : List Event) :
    statusAfter tP (trace ++ es) = es.foldl (nextStatus tP) (statusAfter tP trace) := List.foldl_append

/-- The lists, the flags, the reservations and the trace agree with the statuses. -/
structure Books (w : World Dev) : Prop where
  flagged : ∀ x, (w.tran x).Flagged
  nodup : ∀ dP, (w.map dP).cTranList.Nodup
  completed : ∀ dP x, x ∈ (w.map dP).cTranList ↔ (w.tran x).tranStatus = .COMPLETE ∧ (w.tran x).mapP = some dP
  free : w.tranFreeList.Nodup
  freed : ∀ x ∈ w.tranFreeList, (w.tran x).tranStatus = .FREE ∧ x < w.allocated
  bound : ∀ x, w.allocated ≤ x → (w.tran x).tranStatus = .FREE
  reserved : ∀ dP, (w.map dP).reserved = w.total dP
  trace : ∀ x, statusAfter x w.trace = some (w.tran x).tranStatus

theorem sum_range_update {n t : ℕ} (ht : t < n) (f : ℕ → BitVec 32) (v : BitVec 32) :
    ∑ x ∈ Finset.range n, Function.update f t v x = (∑ x ∈ Finset.range n, f x) - f t + v := by
  rw [Finset.sum_update_of_mem (Finset.mem_range.mpr ht), ← Finset.add_sum_erase _ f (Finset.mem_range.mpr ht),
    ← Finset.erase_eq, BitVec.add_comm (f t), BitVec.add_sub_cancel, BitVec.add_comm v]

variable {w : World Dev} {t : ℕ}

theorem World.total_setTran (ht : t < w.allocated) (rec : elbt_TranRec Dev) (dP : Dev) :
    (w.setTran t rec).total dP = w.total dP - (w.tran t).held dP + rec.held dP := by
  unfold World.total World.setTran
  dsimp only
  rw [← sum_range_update ht (fun x => (w.tran x).held dP)]
  refine Finset.sum_congr rfl fun x _ => ?_
  by_cases hx : x = t
  · rw [hx, Function.update_self, Function.update_self]
  · rw [Function.update_of_ne hx, Function.update_of_ne hx]

theorem Books.lt_allocated (h : Books w) (hexists : (w.tran t).tranStatus ≠ .FREE) : t < w.allocated := by
  by_contra hlt
  exact hexists (h.bound t (Nat.le_of_not_lt hlt))

theorem Books.not_free (h : Books w) (hexists : (w.tran t).tranStatus ≠ .FREE) : t ∉ w.tranFreeList :=
  fun hmem => hexists (h.freed t hmem).1

theorem Books.change {w w' : World Dev} (h : Books w) {rec : elbt_TranRec Dev} {es : List Event}
    (ht : t < w.allocated) (htran : w'.tran = Function.update w.tran t rec) (halloc : w'.allocated = w.allocated)
    (hfree : w'.tranFreeList.Nodup) (hfreed : ∀ x ∈ w'.tranFreeList, if x = t then rec.tranStatus = .FREE else x ∈ w.tranFreeList)
    (htrace : w'.trace = w.trace ++ es)
    (hflagged : rec.Flagged)
    (hreserved : ∀ dP, (w'.map dP).reserved = (w.map dP).reserved - (w.tran t).held dP + rec.held dP)
    (hnodup : ∀ dP, (w'.map dP).cTranList.Nodup)
    (hcompleted : ∀ dP x, x ∈ (w'.map dP).cTranList ↔
      if x = t then rec.tranStatus = .COMPLETE ∧ rec.mapP = some dP else x ∈ (w.map dP).cTranList)
    (hstatus : es.foldl (nextStatus t) (some (w.tran t).tranStatus) = some rec.tranStatus)
    (hothers : ∀ x s, x ≠ t → es.foldl (nextStatus x) s = s) : Books w' := by
  have hself : w'.tran t = rec := by rw [htran, Function.update_self]
  have hother : ∀ {x}, x ≠ t → w'.tran x = w.tran x := fun hx => by rw [htran, Function.update_of_ne hx]
  constructor
  case flagged =>
    intro x
    by_cases hx : x = t
    · rw [hx, hself]
      exact hflagged
    · rw [hother hx]
      exact h.flagged x
  case nodup => exact hnodup
  case completed =>
    intro dP x
    rw [hcompleted]
    by_cases hx : x = t
    · rw [if_pos hx, hx, hself]
    · rw [if_neg hx, hother hx]
      exact h.completed dP x
  case free => exact hfree
  case freed =>
    intro x hx
    have hx := hfreed x hx
    rw [halloc]
    by_cases hxt : x = t
    · rw [if_pos hxt] at hx
      rw [hxt, hself]
      exact ⟨hx, ht⟩
    · rw [if_neg hxt] at hx
      rw [hother hxt]
      exact h.freed x hx
  case bound =>
    intro x hx
    rw [halloc] at hx
    rw [hother (by omega)]
    exact h.bound x hx
  case reserved =>
    intro dP
    have htotal : w'.total dP = (w.setTran t rec).total dP := by
      rw [World.total, World.total, htran, halloc]
      rfl
    rw [hreserved, htotal, World.total_setTran ht, h.reserved]
  case trace =>
    intro x
    rw [htrace, statusAfter_append, h.trace]
    by_cases hx : x = t
    · rw [hx, hself]
      exact hstatus
    · rw [hothers x _ hx, hother hx]

/-- The status, the log, the reservation and the flags of a record. -/
def elbt_TranRec.account (t : elbt_TranRec Dev) : TranStatus × Option Dev × BitVec 32 × Bool × Bool × Bool :=
  (t.tranStatus, t.mapP, t.reserved, t.atran, t.ptran, t.ctran)

theorem Books.quiet {w w' : World Dev} (h : Books w) (haccount : ∀ x, (w'.tran x).account = (w.tran x).account)
    (halloc : w'.allocated = w.allocated) (hfree : w'.tranFreeList = w.tranFreeList) (hmap : w'.map = w.map) {es : List Event}
    (htrace : w'.trace = w.trace ++ es) (hnone : ∀ x s, es.foldl (nextStatus x) s = s) : Books w' := by
  have hstatus : ∀ x, (w'.tran x).tranStatus = (w.tran x).tranStatus := fun x => congrArg Prod.fst (haccount x)
  have hmapP : ∀ x, (w'.tran x).mapP = (w.tran x).mapP := fun x => congrArg (·.2.1) (haccount x)
  have hres : ∀ x, (w'.tran x).reserved = (w.tran x).reserved := fun x => congrArg (·.2.2.1) (haccount x)
  have hatran : ∀ x, (w'.tran x).atran = (w.tran x).atran := fun x => congrArg (·.2.2.2.1) (haccount x)
  have hptran : ∀ x, (w'.tran x).ptran = (w.tran x).ptran := fun x => congrArg (·.2.2.2.2.1) (haccount x)
  have hctran : ∀ x, (w'.tran x).ctran = (w.tran x).ctran := fun x => congrArg (·.2.2.2.2.2) (haccount x)
  constructor
  case flagged =>
    intro x
    have hx := h.flagged x
    constructor
    · rw [hatran, hmapP, hstatus]
      exact hx.atran
    · rw [hptran, hmapP, hstatus]
      exact hx.ptran
    · rw [hctran, hmapP, hstatus]
      exact hx.ctran
    · rw [hmapP, hstatus]
      exact hx.free
  case nodup => exact hmap ▸ h.nodup
  case completed =>
    intro dP x
    rw [hmap, hstatus, hmapP]
    exact h.completed dP x
  case free => exact hfree ▸ h.free
  case freed =>
    intro x hx
    rw [hfree] at hx
    rw [hstatus, halloc]
    exact h.freed x hx
  case bound =>
    intro x hx
    rw [halloc] at hx
    rw [hstatus]
    exact h.bound x hx
  case reserved =>
    intro dP
    rw [hmap, h.reserved, World.total, World.total, halloc]
    refine Finset.sum_congr rfl fun x _ => ?_
    rw [elbt_TranRec.held, elbt_TranRec.held, hmapP, hstatus, hres]
  case trace =>
    intro x
    rw [htrace, statusAfter_append, hnone, hstatus]
    exact h.trace x

end dce.episode.trans

open lib

namespace dce.episode.trans

variable {Dev : Type} [DecidableEq Dev]

def elbt_TranRec.pended (t : elbt_TranRec Dev) (maxEndSize : BitVec 32) : elbt_TranRec Dev :=
  { t with atran := false, ptran := true, reserved := maxEndSize, tranStatus := .PENDING }

def elbt_TranRec.completed (t : elbt_TranRec Dev) (last : LogPosition) : elbt_TranRec Dev :=
  { t with last := last, atran := false, ptran := false, ctran := true, ageq := false, reserved := 0, tranStatus := .COMPLETE }

/-- What has changed in a world: one record, the reservation and the complete transactions of its log, and the trace. -/
structure Changed (w w' : World Dev) (tP : ℕ) (t : elbt_TranRec Dev) (dP : Dev) (reserved : BitVec 32) (cTranList : List ℕ)
    (es : List Event) : Prop where
  tran : w'.tran = Function.update w.tran tP t
  map : ∀ d, d ≠ dP → w'.map d = w.map d
  reserved : (w'.map dP).reserved = reserved
  cTranList : (w'.map dP).cTranList = cTranList
  allocated : w'.allocated = w.allocated
  free : w'.tranFreeList = w.tranFreeList
  trace : w'.trace = w.trace ++ es

variable {w w' : World Dev} {t : elbt_TranRec Dev} {dP : Dev} {tP : ℕ}

theorem PendTran_changed (h : PendTran w tP = some w')
    (hmap : (w.tran tP).mapP = some dP) : (w.tran tP).tranStatus = .ACTIVE ∧
      Changed w w' tP ((w.tran tP).pended (w.map dP).maxEndSize) dP
        ((w.map dP).reserved - (w.tran tP).reserved + (w.map dP).maxEndSize) (w.map dP).cTranList [.pended tP] := by
  unfold PendTran at h
  obtain ⟨hactive, h⟩ := Option.ite_none_right_eq_some.mp h
  obtain ⟨mid, hmid, hw'⟩ := Option.map_eq_some_iff.mp h
  rw [onMap, hmap, Option.elim_some] at hmid
  unfold elbl_PendTran at hmid
  dsimp only at hmid
  obtain ⟨hflags, hmid⟩ := Option.ite_none_right_eq_some.mp hmid
  obtain rfl := Option.some.inj hmid
  refine ⟨hactive, ?_⟩
  subst hw'
  refine ⟨?_, fun d hd => ?_, ?_, ?_, rfl, rfl, rfl⟩
  · simp [World.note, ChangeTranStatus, World.setTran, World.setMap, elbt_TranRec.pended]
  · simp [World.note, ChangeTranStatus, World.setTran, World.setMap, hd]
  · simp [World.note, ChangeTranStatus, World.setTran, World.setMap]
  · simp [World.note, ChangeTranStatus, World.setTran, World.setMap]

omit [DecidableEq Dev] in
theorem moveToComplete_some (h : moveToComplete w tP = some w') :
    ((w.tran tP).tranStatus = .ACTIVE ∨ (w.tran tP).tranStatus = .PENDING) ∧ w'.tran = w.tran ∧ w'.map = w.map ∧
      w'.allocated = w.allocated ∧ w'.tranFreeList = w.tranFreeList ∧ w'.trace = w.trace := by
  unfold moveToComplete at h
  cases hstatus : (w.tran tP).tranStatus with
  | ACTIVE =>
    rw [hstatus] at h
    obtain rfl := Option.some.inj h
    exact ⟨.inl rfl, rfl, rfl, rfl, rfl, rfl⟩
  | PENDING =>
    rw [hstatus] at h
    obtain rfl := Option.some.inj h
    exact ⟨.inr rfl, rfl, rfl, rfl, rfl, rfl⟩
  | COMPLETE =>
    rw [hstatus] at h
    exact absurd h (by simp)
  | FREE =>
    rw [hstatus] at h
    exact absurd h (by simp)

theorem grown_lists (lmP : logMap) (finalSize : BitVec 32) :
    (grown lmP finalSize).reserved = lmP.reserved ∧ (grown lmP finalSize).cTranList = lmP.cTranList := by
  unfold grown
  split_ifs
  · exact ⟨rfl, rfl⟩
  · exact ⟨rfl, rfl⟩

/-- The last position that a transaction has when it is complete. -/
def World.lastOf (w : World Dev) (tP : ℕ) (ecHead : Option ℕ) : LogPosition :=
  ecHead.elim (w.tran tP).last fun ecP => (w.tran ecP).last

theorem CompleteTran_changed {ecHead : Option ℕ} (h : CompleteTran w tP ecHead = some w')
    (hmap : (w.tran tP).mapP = some dP) :
    ((w.tran tP).tranStatus = .ACTIVE ∨ (w.tran tP).tranStatus = .PENDING) ∧ headFits w dP ecHead ∧
      Changed w w' tP ((w.tran tP).completed (w.lastOf tP ecHead)) dP ((w.map dP).reserved - (w.tran tP).reserved)
        ((w.map dP).cTranList ++ [tP]) [.completed tP] := by
  unfold CompleteTran at h
  obtain ⟨moved, hmoved, h⟩ := Option.bind_eq_some_iff.mp h
  obtain ⟨hstatus, htran, hmaps, halloc, hfree, htrace⟩ := moveToComplete_some hmoved
  obtain ⟨mid, hmid, hw'⟩ := Option.map_eq_some_iff.mp h
  rw [onMap, htran, hmap, Option.elim_some] at hmid
  split_ifs at hmid with hlast
  unfold elbl_CompleteTran at hmid
  dsimp only at hmid
  rw [htran, hmaps] at hmid
  by_cases hflags : (w.tran tP).atran ≠ (w.tran tP).ptran ∧ (w.tran tP).ageq ∧ headFits moved dP ecHead ∧
      grownFits (w.map dP) (w.tran tP).tranSize
  · rw [if_pos hflags] at hmid
    obtain rfl := Option.some.inj hmid
    have hfits : headFits w dP ecHead := by
      have hfits := hflags.2.2.1
      cases ecHead with
      | none => trivial
      | some ecP =>
        unfold headFits at hfits ⊢
        rwa [htran] at hfits
    refine ⟨hstatus, hfits, ?_⟩
    subst hw'
    refine ⟨?_, fun d hd => ?_, ?_, ?_, halloc, hfree, ?_⟩
    · simp [World.note, ChangeTranStatus, World.setTran, World.setMap, elbt_TranRec.completed, World.lastOf, htran]
    · simp [World.note, ChangeTranStatus, World.setTran, World.setMap, hd, hmaps]
    · simp [World.note, ChangeTranStatus, World.setTran, World.setMap, (grown_lists _ _).1]
    · simp [World.note, ChangeTranStatus, World.setTran, World.setMap, (grown_lists _ _).2]
    · simp [World.note, ChangeTranStatus, World.setTran, World.setMap, htrace]
  · rw [if_neg hflags] at hmid
    exact absurd hmid (by simp)

theorem held_other {dP d : Dev} (hmap : t.mapP = some dP) (hd : d ≠ dP) : t.held d = 0 := by
  rw [elbt_TranRec.held, if_neg]
  rintro ⟨heq, -⟩
  exact hd (Option.some.inj (heq.symm.trans hmap))

theorem held_unfinished (hmap : t.mapP = some dP)
    (hstatus : t.tranStatus = .ACTIVE ∨ t.tranStatus = .PENDING) : t.held dP = t.reserved := by
  rw [elbt_TranRec.held, if_pos ⟨hmap, hstatus⟩]

theorem held_complete (hstatus : t.tranStatus = .COMPLETE) : t.held dP = 0 := by
  rw [elbt_TranRec.held, if_neg]
  rintro ⟨-, h | h⟩
  · exact absurd (hstatus.symm.trans h) (by decide)
  · exact absurd (hstatus.symm.trans h) (by decide)

theorem Books.changed (h : Books w) {reserved : BitVec 32}
    {cTranList : List ℕ} {es : List Event} (hchanged : Changed w w' tP t dP reserved cTranList es)
    (hexists : (w.tran tP).tranStatus ≠ .FREE) (hold : (w.tran tP).mapP = some dP) (hnew : t.mapP = some dP)
    (hflagged : t.Flagged) (hreserved : reserved = (w.map dP).reserved - (w.tran tP).held dP + t.held dP)
    (hnodup : cTranList.Nodup)
    (hmem : ∀ x, x ∈ cTranList ↔ if x = tP then t.tranStatus = .COMPLETE else x ∈ (w.map dP).cTranList)
    (hstatus : es.foldl (nextStatus tP) (some (w.tran tP).tranStatus) = some t.tranStatus)
    (hothers : ∀ x s, x ≠ tP → es.foldl (nextStatus x) s = s) : Books w' := by
  refine h.change (h.lt_allocated hexists) hchanged.tran hchanged.allocated (hchanged.free ▸ h.free) ?_ hchanged.trace hflagged
    ?_ ?_ ?_ hstatus hothers
  · intro x hx
    rw [hchanged.free] at hx
    have hne : x ≠ tP := fun hxt => h.not_free hexists (hxt ▸ hx)
    rw [if_neg hne]
    exact hx
  · intro d
    by_cases hd : d = dP
    · rw [hd, hchanged.reserved, hreserved]
    · rw [hchanged.map d hd, held_other hold hd, held_other hnew hd, sub_zero, add_zero]
  · intro d
    by_cases hd : d = dP
    · rw [hd, hchanged.cTranList]
      exact hnodup
    · rw [hchanged.map d hd]
      exact h.nodup d
  · intro d x
    by_cases hd : d = dP
    · rw [hd, hchanged.cTranList, hmem, hnew]
      simp only [and_true]
    · rw [hchanged.map d hd]
      by_cases hx : x = tP
      · rw [if_pos hx, h.completed, hx, hold, hnew]
        simp only [Option.some.injEq, Ne.symm hd, and_false]
      · rw [if_neg hx]

theorem Books.pended (h : Books w) (hpend : PendTran w tP = some w')
    (hmap : (w.tran tP).mapP = some dP) : Books w' := by
  obtain ⟨hactive, hchanged⟩ := PendTran_changed hpend hmap
  have hexists : (w.tran tP).tranStatus ≠ .FREE := fun hfree => absurd (hactive.symm.trans hfree) (by decide)
  have hctran : (w.tran tP).ctran = false := by
    rw [← Bool.not_eq_true, (h.flagged tP).ctran, hactive]
    exact fun hc => absurd hc.2 (by decide)
  refine h.changed hchanged hexists hmap hmap ?_ ?_ (h.nodup dP) ?_ ?_ ?_
  · constructor <;> simp [elbt_TranRec.pended, hmap, hctran]
  · rw [held_unfinished hmap (.inl hactive), held_unfinished (t := (w.tran tP).pended _) hmap (.inr rfl)]
    rfl
  · intro x
    by_cases hx : x = tP
    · rw [if_pos hx, h.completed, hx, hactive]
      exact iff_of_false (fun hc => absurd hc.1 (by decide)) (fun hc => absurd hc (by simp [elbt_TranRec.pended]))
    · rw [if_neg hx]
  · rw [hactive]
    simp [nextStatus, elbt_TranRec.pended]
  · intro x s hx
    simp [nextStatus, Ne.symm hx]

theorem Books.completed_tran (h : Books w) {ecHead : Option ℕ}
    (hcomplete : CompleteTran w tP ecHead = some w') (hmap : (w.tran tP).mapP = some dP) : Books w' := by
  obtain ⟨hstatus, -, hchanged⟩ := CompleteTran_changed hcomplete hmap
  have hexists : (w.tran tP).tranStatus ≠ .FREE := by
    intro hfree
    rcases hstatus with hstatus | hstatus
    · exact absurd (hstatus.symm.trans hfree) (by decide)
    · exact absurd (hstatus.symm.trans hfree) (by decide)
  have hnot : tP ∉ (w.map dP).cTranList := by
    intro hmem
    have hdone := ((h.completed dP tP).mp hmem).1
    rcases hstatus with hstatus | hstatus
    · exact absurd (hstatus.symm.trans hdone) (by decide)
    · exact absurd (hstatus.symm.trans hdone) (by decide)
  refine h.changed hchanged hexists hmap hmap ?_ ?_ ?_ ?_ ?_ ?_
  · constructor <;> simp [elbt_TranRec.completed, hmap]
  · rw [held_unfinished hmap hstatus, held_complete rfl, add_zero]
  · exact List.nodup_append.mpr ⟨h.nodup dP, List.nodup_singleton _, fun x hx y hy hxy =>
      hnot (List.mem_singleton.mp hy ▸ hxy ▸ hx)⟩
  · intro x
    rw [List.mem_append, List.mem_singleton]
    by_cases hx : x = tP
    · rw [if_pos hx]
      exact iff_of_true (.inr hx) rfl
    · rw [if_neg hx, or_iff_left hx]
  · rcases hstatus with hstatus | hstatus
    · simp [hstatus, nextStatus, elbt_TranRec.completed]
    · simp [hstatus, nextStatus, elbt_TranRec.completed]
  · intro x s hx
    simp [nextStatus, Ne.symm hx]

end dce.episode.trans
