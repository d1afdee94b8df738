import Dce.Epi.TranCollect

open lib

namespace dce.episode.trans

variable {Dev : Type} [DecidableEq Dev] {w w' : World Dev}

/-- A free record has been taken, and nothing else has changed. -/
structure Taken (w w' : World Dev) (i : ℕ) : Prop where
  books : Books w'
  free : (w'.tran i).tranStatus = .FREE
  was : (w.tran i).tranStatus = .FREE
  lt : i < w'.allocated
  gone : i ∉ w'.tranFreeList
  tran : ∀ x, x ≠ i → w'.tran x = w.tran x
  trace : w'.trace = w.trace

theorem takeRecord_taken (h : Books w) : Taken w (takeRecord w).2 (takeRecord w).1 := by
  unfold takeRecord
  cases hfree : w.tranFreeList with
  | cons i rest =>
    have hnodup := h.free
    rw [hfree, List.nodup_cons] at hnodup
    have hfreed := h.freed
    rw [hfree] at hfreed
    have hbooks : Books { w with tranFreeList := rest } :=
      { h with
        free := hnodup.2
        freed := fun x hx => hfreed x (List.mem_cons_of_mem _ hx) }
    exact ⟨hbooks, (hfreed i List.mem_cons_self).1, (hfreed i List.mem_cons_self).1, (hfreed i List.mem_cons_self).2, hnodup.1,
      fun _ _ => rfl, rfl⟩
  | nil =>
    have hfreed := h.freed
    rw [hfree] at hfreed
    have hself : (w.setTran w.allocated zeroed).tran w.allocated = zeroed := Function.update_self ..
    have hother : ∀ {x}, x ≠ w.allocated → (w.setTran w.allocated zeroed).tran x = w.tran x := fun hx =>
      Function.update_of_ne hx ..
    have hwas := h.bound w.allocated (Nat.le_refl _)
    have hstatus : ∀ x, ((w.setTran w.allocated zeroed).tran x).tranStatus = (w.tran x).tranStatus := by
      intro x
      by_cases hx : x = w.allocated
      · rw [hx, hself, hwas]
        rfl
      · rw [hother hx]
    have hbooks : Books { w.setTran w.allocated zeroed with allocated := w.allocated + 1 } := by
      constructor
      case flagged =>
        intro x
        change ((w.setTran w.allocated zeroed).tran x).Flagged
        by_cases hx : x = w.allocated
        · rw [hx, hself]
          constructor <;> simp [zeroed]
        · rw [hother hx]
          exact h.flagged x
      case nodup => exact h.nodup
      case completed =>
        intro d x
        refine (h.completed d x).trans ?_
        change _ ↔ ((w.setTran w.allocated zeroed).tran x).tranStatus = _ ∧ ((w.setTran w.allocated zeroed).tran x).mapP = _
        rw [hstatus]
        refine and_congr_right fun hdone => ?_
        have hx : x ≠ w.allocated := by
          rintro rfl
          exact absurd (hdone.symm.trans hwas) (by decide)
        rw [hother hx]
      case free => exact hfree ▸ List.nodup_nil
      case freed =>
        intro x hx
        change x ∈ w.tranFreeList at hx
        rw [hfree] at hx
        exact absurd hx List.not_mem_nil
      case bound => exact fun x hx => (hstatus x).trans (h.bound x (Nat.le_of_succ_le hx))
      case reserved =>
        intro d
        change (w.map d).reserved = ∑ x ∈ Finset.range (w.allocated + 1), ((w.setTran w.allocated zeroed).tran x).held d
        have hzero : (zeroed : elbt_TranRec Dev).held d = 0 := if_neg fun hc => absurd hc.1 (by simp [zeroed])
        rw [Finset.sum_range_succ, hself, hzero, add_zero, h.reserved]
        exact Finset.sum_congr rfl fun x hx => by rw [hother (Finset.mem_range.mp hx).ne]
      case trace => exact fun x => (h.trace x).trans (congrArg some (hstatus x).symm)
    refine ⟨hbooks, ?_, hwas, Nat.lt_succ_self _, ?_, fun x hx => hother hx, rfl⟩
    · change ((w.setTran w.allocated zeroed).tran w.allocated).tranStatus = _
      rw [hself]
      rfl
    · change w.allocated ∉ w.tranFreeList
      rw [hfree]
      exact List.not_mem_nil

/-- The record of a transaction that has just been started. -/
def elbt_TranRec.begun (t : elbt_TranRec Dev) (i : ℕ) (tranId : BitVec 32) (force : Bool) : elbt_TranRec Dev :=
  { t with tranId := tranId, ecList := [], ecHead := i, ecSize := 1, tranStatus := .ACTIVE, nested := force, tranSize := 0 }

/-- The record of a transaction that has been put on its log. -/
def elbt_TranRec.logged (t : elbt_TranRec Dev) (dP : Dev) (reserved : BitVec 32) (pos : LogPosition) : elbt_TranRec Dev :=
  { t with reserved := reserved, atran := true, ptran := false, ctran := false, ageq := true, last := pos, mapP := some dP }

variable {pos : LogPosition} {force : Bool} {dP : Dev} {i : ℕ}

omit [DecidableEq Dev] in
theorem initTran_some (h : initTran w i force = some w') :
    w'.tran = Function.update w.tran i ((w.tran i).begun i (nextTranId w.elbt_GlobalTranId) force) ∧ w'.map = w.map ∧
      w'.allocated = w.allocated ∧ w'.tranFreeList = w.tranFreeList ∧ w'.trace = w.trace ++ [.started i] := by
  unfold initTran at h
  split_ifs at h with hfree
  obtain rfl := Option.some.inj h
  exact ⟨rfl, rfl, rfl, rfl, rfl⟩

theorem elbl_StartTran_tran (w : World Dev) (dP : Dev) (i : ℕ) (pos : LogPosition) :
    (elbl_StartTran w dP i pos).tran = Function.update w.tran i ((w.tran i).logged dP
      (if (w.tran i).nested then (w.map dP).maxUndoSize else (w.map dP).maxTranSize) pos) := rfl

theorem started_kept {taken mid : World Dev} (h : Kept w)
    (htaken : Taken w taken i) (hinit : initTran taken i force = some mid) : Kept (elbl_StartTran mid dP i pos) := by
  obtain ⟨htran, hmap, halloc, hfree, htrace⟩ := initTran_some hinit
  obtain ⟨w', hw'⟩ : ∃ w', w' = elbl_StartTran mid dP i pos := ⟨_, rfl⟩
  obtain ⟨r, hr⟩ : ∃ r, r = if (mid.tran i).nested then (mid.map dP).maxUndoSize else (mid.map dP).maxTranSize := ⟨_, rfl⟩
  obtain ⟨t, ht⟩ : ∃ t, t = ((taken.tran i).begun i (nextTranId taken.elbt_GlobalTranId) force).logged dP r pos := ⟨_, rfl⟩
  rw [← hw']
  have hmid : mid.tran i = (taken.tran i).begun i (nextTranId taken.elbt_GlobalTranId) force := by
    rw [htran, Function.update_self]
  have htran' : w'.tran = Function.update taken.tran i t := by
    rw [hw', elbl_StartTran_tran, ← hr, htran, Function.update_self, Function.update_idem, ht]
  have hnone : (taken.tran i).mapP = none := (htaken.books.flagged i).free htaken.free
  have hheldOld : ∀ d, (taken.tran i).held d = 0 := fun d => if_neg fun hc => absurd (hnone.symm.trans hc.1) (by simp)
  have hreserved : ∀ d, (w'.map d).reserved = (taken.map d).reserved + t.held d := by
    intro d
    rw [hw']
    change ((World.setMap _ dP _).map d).reserved = _
    rw [setMap_map]
    by_cases hd : d = dP
    · rw [if_pos hd, hd, held_unfinished (t := t) (by rw [ht]; rfl) (.inl (by rw [ht]; rfl)), ht, hr, ← hmap]
      rfl
    · rw [if_neg hd, held_other (t := t) (by rw [ht]; rfl) hd, add_zero, ← hmap]
      rfl
  have hlists : ∀ d, (w'.map d).cTranList = (taken.map d).cTranList := by
    intro d
    rw [hw']
    change ((World.setMap _ dP _).map d).cTranList = _
    rw [setMap_map]
    by_cases hd : d = dP
    · rw [if_pos hd, hd, ← hmap]
    · rw [if_neg hd, ← hmap]
      rfl
  have hrest : w'.allocated = taken.allocated ∧ w'.tranFreeList = taken.tranFreeList ∧
      w'.trace = taken.trace ++ [.started i] := by
    rw [hw']
    exact ⟨halloc, hfree, htrace⟩
  have hbooks : Books w' := by
    refine htaken.books.change htaken.lt htran' hrest.1 (hrest.2.1 ▸ htaken.books.free) (fun x hx => ?_) hrest.2.2 ?_ (fun d => ?_)
      (fun d => hlists d ▸ htaken.books.nodup d) (fun d x => ?_) ?_ fun x s hx => ?_
    · rw [hrest.2.1] at hx
      have hne : x ≠ i := fun hxi => htaken.gone (hxi ▸ hx)
      rw [if_neg hne]
      exact hx
    · rw [ht]
      constructor <;> simp [elbt_TranRec.logged, elbt_TranRec.begun]
    · rw [hreserved, hheldOld, sub_zero]
    · rw [hlists]
      by_cases hx : x = i
      · rw [if_pos hx, htaken.books.completed, hx, htaken.free, ht]
        exact iff_of_false (fun hc => absurd hc.1 (by decide)) fun hc => absurd hc.1 (by simp [elbt_TranRec.logged, elbt_TranRec.begun])
      · rw [if_neg hx]
    · rw [htaken.free, ht]
      simp [nextStatus, elbt_TranRec.logged, elbt_TranRec.begun]
    · simp [nextStatus, Ne.symm hx]
  have hfields : ∀ x, w'.tran x = if x = i then t else w.tran x := by
    intro x
    rw [htran', Function.update_apply]
    split_ifs with hx
    · rfl
    · exact htaken.tran x hx
  have hclasses : w'.classes = w.classes.start i (some dP, pos) := by
    have hupdate : ∀ {β : Type} (f : elbt_TranRec Dev → β), (fun x => f (w'.tran x)) = Function.update (fun x => f (w.tran x)) i (f t) := by
      intro β f
      funext x
      rw [hfields, Function.update_apply]
      split_ifs
      · rfl
      · rfl
    apply Classes.ext
    · exact (hupdate (·.ecHead)).trans (by rw [ht]; rfl)
    · exact (hupdate (·.ecList)).trans (by rw [ht]; rfl)
    · exact (hupdate (·.ecSize)).trans (by rw [ht]; rfl)
    · exact (hupdate (·.tranStatus)).trans (by rw [ht]; rfl)
    · change mergesOf w'.trace = Classes.without i (mergesOf w.trace)
      rw [hrest.2.2, htaken.trace, mergesOf_append]
      rfl
    · exact (hupdate fun t => (t.mapP, t.last)).trans (by rw [ht]; rfl)
  have hself : w'.heads i = i := by
    rw [World.heads, hfields, if_pos rfl, ht]
    rfl
  have hold : ∀ {x}, x ≠ i → w'.classes.Existing x → w.classes.Existing x := by
    intro x hx hex
    rw [hclasses, Classes.Existing] at hex
    rwa [show (w.classes.start i (some dP, pos)).status x = w.classes.status x from Function.update_of_ne hx ..] at hex
  have hne : ∀ {x}, w.classes.Existing x → x ≠ i := fun hx hxi => hx (hxi ▸ htaken.was)
  refine { hbooks with classes := hclasses ▸ h.classes.start htaken.was _, sameMap := fun x hx => ?_, logged := fun x hx => ?_ }
  · by_cases hxi : x = i
    · rw [hxi, hself]
    · have hx := hold hxi hx
      have hheads : w'.heads x = w.heads x := by rw [World.heads, hfields, if_neg hxi]; rfl
      have hhead : w.heads x ≠ i := hne (h.classes.closed x hx)
      rw [hheads, hfields, hfields, if_neg hxi, if_neg hhead]
      exact h.sameMap x hx
  · rw [hfields]
    split_ifs with hxi
    · rw [ht]
      exact Option.some_ne_none dP
    · rw [Classes.Unfinished, show w'.classes.status x = w.classes.status x from congrArg (·.tranStatus)
        ((hfields x).trans (if_neg hxi))] at hx
      exact h.logged x hx

theorem CompleteTran_unlogged (hmap : (w.tran i).mapP = none) (h : CompleteTran w i none = some w') :
    w'.tran = Function.update w.tran i { w.tran i with tranStatus := .COMPLETE } ∧ w'.map = w.map ∧
      w'.allocated = w.allocated ∧ w'.tranFreeList = w.tranFreeList ∧ w'.trace = w.trace ++ [.completed i] := by
  unfold CompleteTran at h
  obtain ⟨moved, hmoved, h⟩ := Option.bind_eq_some_iff.mp h
  obtain ⟨-, htran, hmaps, halloc, hfree, htrace⟩ := moveToComplete_some hmoved
  rw [onMap, htran, hmap, Option.elim_none, Option.map_some] at h
  obtain rfl := Option.some.inj h
  refine ⟨?_, hmaps, halloc, hfree, ?_⟩
  · change Function.update moved.tran i _ = _
    rw [htran]
  · change moved.trace ++ _ = _
    rw [htrace]

theorem refused_kept {taken mid mid' mid'' : World Dev} {reserved : BitVec 32} (h : Kept w)
    (htaken : Taken w taken i) (hinit : initTran taken i force = some mid)
    (hmid' : mid' = mid.setTran i { mid.tran i with mapP := none, reserved := reserved })
    (hcomplete : CompleteTran mid' i none = some mid'') (hdealloc : DeallocTran mid'' i = some w') : Kept w' := by
  obtain ⟨htran, hmap, halloc, hfree, htrace⟩ := initTran_some hinit
  have hself : mid'.tran i = { mid.tran i with mapP := none, reserved := reserved } := by
    rw [hmid']
    exact Function.update_self ..
  obtain ⟨htran', hmap', halloc', hfree', htrace'⟩ := CompleteTran_unlogged (by rw [hself]) hcomplete
  obtain ⟨-, -, htran'', halloc'', hfree'', hmap'', htrace''⟩ := DeallocTran_some hdealloc
  obtain ⟨t, ht⟩ : ∃ t, t = w'.tran i := ⟨_, rfl⟩
  have hti : t = { (taken.tran i).begun i (nextTranId taken.elbt_GlobalTranId) force with
      mapP := none, reserved := reserved, tranStatus := .FREE } := by
    rw [ht, htran'', Function.update_self, htran', Function.update_self, hself, htran, Function.update_self]
    rfl
  have htaken' : w'.tran = Function.update taken.tran i t := by
    rw [ht, htran'', Function.update_self, htran', hmid', World.setTran, htran, Function.update_idem, Function.update_idem,
      Function.update_idem]
  have hmaps : w'.map = taken.map := hmap''.trans (hmap'.trans (hmid' ▸ hmap))
  have hallocated : w'.allocated = taken.allocated := halloc''.trans (halloc'.trans (hmid' ▸ halloc))
  have hfreeList : w'.tranFreeList = taken.tranFreeList ++ [i] := by
    rw [hfree'', hfree', hmid']
    exact congrArg (· ++ [i]) hfree
  have htraces : w'.trace = taken.trace ++ [.started i, .completed i, .freed i] := by
    have hset : mid'.trace = mid.trace := by rw [hmid']; rfl
    rw [htrace'', htrace', hset, htrace, List.append_assoc, List.append_assoc]
    rfl
  have hflags := htaken.books.flagged i
  have hnone : (taken.tran i).mapP = none := hflags.free htaken.free
  have hheld : ∀ d, (taken.tran i).held d = 0 := fun d => if_neg fun hc => absurd (hnone.symm.trans hc.1) (by simp)
  have hheld' : ∀ d, t.held d = 0 := fun d => if_neg fun hc => absurd hc.1 (by simp [hti])
  have hbooks : Books w' := by
    refine htaken.books.change htaken.lt htaken' hallocated ?_ (fun x hx => ?_) htraces ?_ (fun d => ?_)
      (hmaps ▸ htaken.books.nodup) (fun d x => ?_) ?_ fun x s hx => ?_
    · rw [hfreeList]
      exact List.nodup_append.mpr ⟨htaken.books.free, List.nodup_singleton _, fun x hx y hy hxy =>
        htaken.gone (List.mem_singleton.mp hy ▸ hxy ▸ hx)⟩
    · rw [hfreeList] at hx
      by_cases hxi : x = i
      · rw [if_pos hxi, hti]
      · rw [if_neg hxi]
        exact (List.mem_append.mp hx).resolve_right fun hmem => hxi (List.mem_singleton.mp hmem)
    · rw [hti]
      constructor
      · exact hflags.atran.trans (iff_of_false (fun hc => hc.1 hnone) fun hc => hc.1 rfl)
      · exact hflags.ptran.trans (iff_of_false (fun hc => hc.1 hnone) fun hc => hc.1 rfl)
      · exact hflags.ctran.trans (iff_of_false (fun hc => hc.1 hnone) fun hc => hc.1 rfl)
      · exact fun _ => rfl
    · rw [hmaps, hheld, hheld', sub_zero, add_zero]
    · rw [hmaps]
      by_cases hx : x = i
      · rw [if_pos hx, htaken.books.completed, hx, htaken.free, hti]
        exact iff_of_false (fun hc => absurd hc.1 (by decide)) fun hc => absurd hc.1 TranStatus.noConfusion
      · rw [if_neg hx]
    · rw [htaken.free, hti]
      simp [nextStatus]
    · simp [nextStatus, Ne.symm hx]
  have hfields : ∀ x, x ≠ i → w'.tran x = w.tran x := by
    intro x hx
    rw [htaken', Function.update_of_ne hx]
    exact htaken.tran x hx
  have hstatus : w'.classes.status = w.classes.status := by
    funext x
    change (w'.tran x).tranStatus = (w.tran x).tranStatus
    by_cases hx : x = i
    · rw [hx, ← ht, hti, htaken.was]
    · rw [hfields x hx]
  have hclasses : w'.classes.Valid := by
    refine h.classes.blank htaken.was (fun x hx => ?_) (fun x hx => ?_) (fun x hx => ?_) (fun x hx => ?_) hstatus ?_
    · exact congrArg (·.ecHead) (hfields x hx)
    · exact congrArg (·.ecList) (hfields x hx)
    · exact congrArg (·.ecSize) (hfields x hx)
    · exact congrArg (fun t => (t.mapP, t.last)) (hfields x hx)
    · change mergesOf w'.trace = Classes.without i (mergesOf w.trace)
      rw [htraces, htaken.trace, mergesOf_append]
      rfl
  have hne : ∀ {x}, w.classes.Existing x → x ≠ i := fun hx hxi => hx (hxi ▸ htaken.was)
  refine { hbooks with classes := hclasses, sameMap := fun x hx => ?_, logged := fun x hx => ?_ }
  · rw [Classes.Existing, hstatus] at hx
    have hheads : w'.heads x = w.heads x := congrArg (·.ecHead) (hfields x (hne hx))
    have hhead : w.heads x ≠ i := hne (h.classes.closed x hx)
    rw [hheads, hfields x (hne hx), hfields _ hhead]
    exact h.sameMap x hx
  · rw [Classes.Unfinished, hstatus] at hx
    rw [hfields x (hne (Classes.unfinished_iff.mp hx).1)]
    exact h.logged x hx

theorem allocTran_kept {force full : Bool} (h : Kept w)
    (halloc : allocTran w dP force full pos = some w') : Kept w' := by
  have htaken := takeRecord_taken h.toBooks
  obtain ⟨mid, hmid, hrest⟩ := Option.bind_eq_some_iff.mp halloc
  split_ifs at hrest with hfull
  · obtain ⟨done, hdone, hfreed⟩ := Option.bind_eq_some_iff.mp hrest
    exact refused_kept h htaken hmid rfl hdone hfreed
  · exact Option.some.inj hrest ▸ started_kept h htaken hmid

theorem elbt_StartTran_kept {force full : Bool} {gc : List (Dev × (LogPosition → Bool))} (h : Kept w)
    (hstart : elbt_StartTran w dP force full pos gc = some w') : Kept w' := by
  unfold elbt_StartTran at hstart
  split_ifs at hstart with hcollect
  · obtain ⟨mid, hmid, hrest⟩ := Option.bind_eq_some_iff.mp hstart
    exact allocTran_kept (collect_kept h hmid) hrest
  · exact allocTran_kept h hstart

theorem call_kept {c : Call Dev} (h : Kept w) (hcall : call w c = some w') : Kept w' := by
  cases c with
  | elbt_StartTran dP force full pos gc => exact elbt_StartTran_kept h hcall
  | elbt_ECMerge tran1 tran2 found1 found2 => exact elbt_ECMerge_kept h hcall
  | elbt_EndTran tranId found bytes pos =>
    rw [call, elbt_EndTran] at hcall
    split_ifs at hcall with hfound
    exact (endTran_ended h hcall).kept
  | elbt_GCTran dP committed => exact elbt_GCTran_kept h hcall
  | logUpdate tP bytes pos => exact logUpdate_kept h hcall

theorem World.Initial.kept (h : w.Initial) : Kept w := by
  have htran : ∀ x, w.tran x = zeroed := fun x => congrFun h.tran x
  have hnot : ∀ x, ¬w.classes.Existing x := fun x hx => hx (congrArg (·.tranStatus) (htran x))
  have hunf : ∀ x, ¬w.classes.Unfinished x := fun x hx => hnot x (Classes.unfinished_iff.mp hx).1
  have hmerges : w.classes.merges = [] := by
    change mergesOf w.trace = []
    rw [h.trace]
    rfl
  have hbooks : Books w := by
    constructor
    · intro x
      rw [htran]
      constructor <;> simp [zeroed]
    · intro d
      rw [(h.map d).lists.2.2.1]
      exact List.nodup_nil
    · intro d x
      rw [(h.map d).lists.2.2.1, htran]
      exact iff_of_false List.not_mem_nil fun hc => absurd hc.1 (by simp [zeroed])
    · rw [h.lists.1]
      exact List.nodup_nil
    · intro x hx
      rw [h.lists.1] at hx
      exact absurd hx List.not_mem_nil
    · intro x _
      rw [htran]
      rfl
    · intro d
      rw [(h.map d).reserved, World.total, h.allocated]
      rfl
    · intro x
      rw [h.trace, htran]
      rfl
  refine { hbooks with classes := ?_, sameMap := fun x hx => absurd hx (hnot x), logged := fun x hx => absurd hx (hunf x) }
  constructor
  · exact fun x hx => absurd hx (hnot x)
  · exact fun x hx => absurd hx (hnot x)
  · exact fun x hx => absurd hx (hnot x)
  · exact fun x hx => absurd hx (by simp [World.classes, htran, zeroed])
  · exact fun r _ hr => absurd hr (hunf r)
  · exact fun r _ hr => absurd hr (hunf r)
  · exact fun r _ hr => absurd hr (hunf r)
  · exact fun r _ hr => absurd hr (hunf r)
  · exact fun r _ hr => absurd hr (by simp [World.classes, htran, zeroed])
  · intro x y hxy
    rw [hmerges] at hxy
    exact absurd hxy List.not_mem_nil
  · exact fun x r hx => absurd hx (hnot x)

theorem reachable_kept (h : transactions.Reachable w) : Kept w :=
  h.invariant (P := Kept) (fun _ hinit => World.Initial.kept hinit) fun _ _ _ hkept hstep => call_kept hkept hstep

end dce.episode.trans
