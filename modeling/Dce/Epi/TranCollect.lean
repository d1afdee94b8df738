import Dce.Epi.TranKept

open lib

namespace dce.episode.trans

variable {Dev : Type} [DecidableEq Dev] {w w' : World Dev}

theorem setMap_map (w : World Dev) (dP : Dev) (lmP : logMap) (d : Dev) :
    (w.setMap dP lmP).map d = if d = dP then lmP else w.map d := Function.update_apply ..

/-- What the two loops of `elbt_GCTran` do with some transactions: each is taken off its log, or freed. -/
structure Swept (w w' : World Dev) (l : List ℕ) (off : elbt_TranRec Dev → elbt_TranRec Dev) (es : List Event) : Prop where
  tran : ∀ x, w'.tran x = if x ∈ l then off (w.tran x) else w.tran x
  trace : w'.trace = w.trace ++ es
  books : Books w'

def elbt_TranRec.released (t : elbt_TranRec Dev) : elbt_TranRec Dev := { t with ctran := false, mapP := none }

def elbt_TranRec.freed (t : elbt_TranRec Dev) : elbt_TranRec Dev := { t with tranStatus := .FREE }

variable {dP : Dev} {l : List ℕ} {tP : ℕ}

theorem release_swept (h : Books w) (hmap : (w.tran tP).mapP = some dP)
    (hrelease : release dP w tP = some w') : Swept w w' [tP] elbt_TranRec.released [] := by
  unfold release at hrelease
  dsimp only at hrelease
  split_ifs at hrelease with hflags
  have hw' := Option.some.inj hrelease
  have htran : w'.tran = Function.update w.tran tP (w.tran tP).released := by
    rw [← hw']
    rfl
  have hreserved : ∀ d, (w'.map d).reserved = (w.map d).reserved := by
    intro d
    rw [← hw', setMap_map]
    split_ifs with hd
    · rw [hd]
    · rfl
  have hlist : ∀ d, (w'.map d).cTranList = if d = dP then (w.map dP).cTranList.erase tP else (w.map d).cTranList := by
    intro d
    rw [← hw', setMap_map]
    split_ifs with hd
    · rfl
    · rfl
  have hrest : w'.allocated = w.allocated ∧ w'.tranFreeList = w.tranFreeList ∧ w'.trace = w.trace := by
    rw [← hw']
    exact ⟨rfl, rfl, rfl⟩
  have hstatus : (w.tran tP).tranStatus = .COMPLETE := ((h.flagged tP).ctran.mp hflags.1).2
  have hexists : (w.tran tP).tranStatus ≠ .FREE := fun hfree => absurd (hstatus.symm.trans hfree) (by decide)
  have hatran : ¬(w.tran tP).atran = true := fun hatran =>
    absurd (hstatus.symm.trans ((h.flagged tP).atran.mp hatran).2) (by decide)
  have hptran : ¬(w.tran tP).ptran = true := fun hptran =>
    absurd (hstatus.symm.trans ((h.flagged tP).ptran.mp hptran).2) (by decide)
  have htrace : w'.trace = w.trace ++ [] := by rw [hrest.2.2, List.append_nil]
  refine ⟨fun x => ?_, htrace, h.change (h.lt_allocated hexists) htran hrest.1 (hrest.2.1 ▸ h.free) (fun x hx => ?_) htrace ?_
    (fun d => ?_) (fun d => ?_) (fun d x => ?_) (congrArg some rfl) fun _ _ _ => rfl⟩
  · rw [htran, Function.update_apply]
    simp only [List.mem_singleton]
    split_ifs with hx
    · rw [hx]
    · rfl
  · rw [hrest.2.1] at hx
    have hne : x ≠ tP := fun hxt => h.not_free hexists (hxt ▸ hx)
    rw [if_neg hne]
    exact hx
  · constructor <;> simp [elbt_TranRec.released, hatran, hptran, hstatus]
  · have hheld : (w.tran tP).released.held d = 0 := held_complete hstatus
    rw [hreserved, hheld, held_complete hstatus, sub_zero, add_zero]
  · rw [hlist]
    split_ifs with hd
    · exact (h.nodup dP).erase tP
    · exact h.nodup d
  · rw [hlist]
    by_cases hx : x = tP
    · rw [if_pos hx, hx]
      refine iff_of_false ?_ fun hc => absurd hc.2 (by simp [elbt_TranRec.released])
      split_ifs with hd
      · exact (h.nodup dP).not_mem_erase
      · rw [h.completed, hmap]
        exact fun hc => hd (Option.some.inj hc.2).symm
    · rw [if_neg hx]
      split_ifs with hd
      · rw [hd]
        exact List.mem_erase_of_ne hx
      · exact Iff.rfl

omit [DecidableEq Dev] in
theorem DeallocTran_some (h : DeallocTran w tP = some w') :
    (w.tran tP).tranStatus = .COMPLETE ∧ (w.tran tP).mapP = none ∧ w'.tran = Function.update w.tran tP (w.tran tP).freed ∧
      w'.allocated = w.allocated ∧ w'.tranFreeList = w.tranFreeList ++ [tP] ∧ w'.map = w.map ∧
      w'.trace = w.trace ++ [.freed tP] := by
  unfold DeallocTran at h
  split_ifs at h with hguard
  obtain rfl := Option.some.inj h
  exact ⟨hguard.1, hguard.2, rfl, rfl, rfl, rfl, rfl⟩

theorem DeallocTran_swept (h : Books w) (hdealloc : DeallocTran w tP = some w') :
    Swept w w' [tP] elbt_TranRec.freed [.freed tP] := by
  obtain ⟨hstatus, hmap, htran, halloc, hfree, hmaps, htrace⟩ := DeallocTran_some hdealloc
  have hexists : (w.tran tP).tranStatus ≠ .FREE := fun hfree => absurd (hstatus.symm.trans hfree) (by decide)
  have hflags := h.flagged tP
  refine ⟨fun x => ?_, htrace, h.change (h.lt_allocated hexists) htran halloc ?_ (fun x hx => ?_) htrace ?_ (fun d => ?_)
    (hmaps ▸ h.nodup) (fun d x => ?_) ?_ fun x s hx => ?_⟩
  · rw [htran, Function.update_apply]
    simp only [List.mem_singleton]
    split_ifs with hx
    · rw [hx]
    · rfl
  · rw [hfree]
    exact List.nodup_append.mpr ⟨h.free, List.nodup_singleton _, fun x hx y hy hxy =>
      h.not_free hexists (List.mem_singleton.mp hy ▸ hxy ▸ hx)⟩
  · rw [hfree] at hx
    by_cases hxt : x = tP
    · rw [if_pos hxt]
      rfl
    · rw [if_neg hxt]
      exact (List.mem_append.mp hx).resolve_right fun hmem => hxt (List.mem_singleton.mp hmem)
  · constructor
    · exact hflags.atran.trans (iff_of_false (fun hc => hc.1 hmap) fun hc => hc.1 hmap)
    · exact hflags.ptran.trans (iff_of_false (fun hc => hc.1 hmap) fun hc => hc.1 hmap)
    · exact hflags.ctran.trans (iff_of_false (fun hc => hc.1 hmap) fun hc => hc.1 hmap)
    · exact fun _ => hmap
  · have hheld : (w.tran tP).freed.held d = 0 := by
      rw [elbt_TranRec.held, if_neg]
      rintro ⟨hc, -⟩
      exact absurd (hmap.symm.trans hc) (by simp)
    rw [hmaps, hheld, held_complete hstatus, sub_zero, add_zero]
  · rw [hmaps]
    by_cases hx : x = tP
    · rw [if_pos hx, h.completed, hx, hmap]
      exact iff_of_false (fun hc => absurd hc.2 (by simp)) fun hc => absurd hc.1 (by simp [elbt_TranRec.freed])
    · rw [if_neg hx]
  · rw [hstatus]
    simp [nextStatus, elbt_TranRec.freed]
  · simp [nextStatus, Ne.symm hx]

theorem Swept.cons {mid : World Dev} {n : ℕ} {off : elbt_TranRec Dev → elbt_TranRec Dev} {es es' : List Event}
    (hfirst : Swept w mid [n] off es) (hrest : Swept mid w' l off es') (hn : n ∉ l) : Swept w w' (n :: l) off (es ++ es') where
  tran x := by
    rw [hrest.tran, hfirst.tran]
    simp only [List.mem_cons, List.not_mem_nil, or_false]
    by_cases hx : x = n
    · rw [hx, if_neg hn, if_pos rfl, if_pos (.inl rfl)]
    · rw [if_neg hx]
      simp only [hx, false_or]
  trace := by rw [hrest.trace, hfirst.trace, List.append_assoc]
  books := hrest.books

theorem Swept.none {off : elbt_TranRec Dev → elbt_TranRec Dev} (h : Books w) : Swept w w [] off [] where
  tran _ := (if_neg List.not_mem_nil).symm
  trace := (List.append_nil _).symm
  books := h

theorem releases_swept (h : Books w) (hl : l.Nodup) (hmaps : ∀ x ∈ l, (w.tran x).mapP = some dP)
    (hloop : l.foldlM (release dP) w = some w') : Swept w w' l elbt_TranRec.released [] := by
  induction l generalizing w with
  | nil => exact Option.some.inj hloop ▸ .none h
  | cons n l ih =>
    obtain ⟨hn, hl⟩ := List.nodup_cons.mp hl
    rw [List.foldlM_cons] at hloop
    obtain ⟨mid, hmid, hloop⟩ := Option.bind_eq_some_iff.mp hloop
    have hfirst := release_swept h (hmaps n List.mem_cons_self) hmid
    refine hfirst.cons (ih hfirst.books hl (fun x hx => ?_) hloop) hn
    have hne : x ∉ [n] := fun hxn => hn (List.mem_singleton.mp hxn ▸ hx)
    rw [hfirst.tran, if_neg hne]
    exact hmaps x (List.mem_cons_of_mem _ hx)

theorem deallocs_swept (h : Books w) (hl : l.Nodup) (hloop : l.foldlM DeallocTran w = some w') :
    Swept w w' l elbt_TranRec.freed (l.map .freed) := by
  induction l generalizing w with
  | nil => exact Option.some.inj hloop ▸ .none h
  | cons n l ih =>
    obtain ⟨hn, hl⟩ := List.nodup_cons.mp hl
    rw [List.foldlM_cons] at hloop
    obtain ⟨mid, hmid, hloop⟩ := Option.bind_eq_some_iff.mp hloop
    have hfirst := DeallocTran_swept h hmid
    exact hfirst.cons (ih hfirst.books hl hloop) hn

theorem elbt_GCTran_swept {committed : LogPosition → Bool} (h : Books w) (hgc : elbt_GCTran w dP committed = some w') :
    ∃ l : List ℕ, (∀ x, x ∈ l ↔ (w.tran x).tranStatus = .COMPLETE ∧ (w.tran x).mapP = some dP ∧
      committed (w.tran x).last = true) ∧ Swept w w' l (fun t => t.released.freed) (l.map .freed) := by
  obtain ⟨mid, hmid, hlast⟩ := Option.bind_eq_some_iff.mp hgc
  obtain ⟨l, hl⟩ : ∃ l, l = (w.map dP).cTranList.filter fun tP => committed (w.tran tP).last := ⟨_, rfl⟩
  rw [← hl] at hmid hlast
  have hmem : ∀ x, x ∈ l ↔ (w.tran x).tranStatus = .COMPLETE ∧ (w.tran x).mapP = some dP ∧
      committed (w.tran x).last = true := by
    intro x
    rw [hl, List.mem_filter, h.completed, and_assoc]
  have hnodup : l.Nodup := hl ▸ (h.nodup dP).filter _
  have hreleased := releases_swept h hnodup (fun x hx => ((hmem x).mp hx).2.1) hmid
  have hfreed := deallocs_swept hreleased.books hnodup hlast
  refine ⟨l, hmem, fun x => ?_, ?_, hfreed.books⟩
  · rw [hfreed.tran, hreleased.tran]
    split_ifs
    · rfl
    · rfl
  · rw [hfreed.trace, hreleased.trace, List.append_nil]

theorem frees_quiet (l : List ℕ) (merges : List (ℕ × ℕ)) : (l.map Event.freed).foldl nextMerges merges = merges := by
  induction l with
  | nil => rfl
  | cons x l ih => exact ih

theorem elbt_GCTran_kept {committed : LogPosition → Bool} (h : Kept w)
    (hgc : elbt_GCTran w dP committed = some w') : Kept w' := by
  obtain ⟨l, hmem, hswept⟩ := elbt_GCTran_swept h.toBooks hgc
  have htran := hswept.tran
  have hkept : ∀ {β : Type} (f : elbt_TranRec Dev → β), (∀ t : elbt_TranRec Dev, f t.released.freed = f t) →
      ∀ x, f (w'.tran x) = f (w.tran x) := by
    intro β f hsame x
    rw [htran]
    split_ifs
    · exact hsame _
    · rfl
  have hstatus : ∀ x, (w'.tran x).tranStatus = if x ∈ l then .FREE else (w.tran x).tranStatus := by
    intro x
    rw [htran]
    split_ifs
    · rfl
    · rfl
  have hclasses : w'.classes = { w.classes.free (fun x => decide (x ∈ l)) with place := w'.classes.place } := by
    apply Classes.ext
    · exact funext (hkept (·.ecHead) fun _ => rfl)
    · exact funext (hkept (·.ecList) fun _ => rfl)
    · exact funext (hkept (·.ecSize) fun _ => rfl)
    · funext x
      change (w'.tran x).tranStatus = if decide (x ∈ l) = true then .FREE else (w.tran x).tranStatus
      rw [hstatus]
      simp only [decide_eq_true_eq]
    · change mergesOf w'.trace = mergesOf w.trace
      rw [hswept.trace]
      exact mergesOf_quiet (frees_quiet l)
    · rfl
  have hfree : (w.classes.free fun x => decide (x ∈ l)).Valid := by
    refine h.classes.free (fun x hx => ((hmem x).mp (of_decide_eq_true hx)).1) fun x hx => ?_
    refine decide_eq_decide.mpr ?_
    rw [hmem, hmem]
    have hfinished : (w.tran (w.heads x)).tranStatus = .COMPLETE ↔ (w.tran x).tranStatus = .COMPLETE := h.classes.finished x hx
    change (w.tran (w.heads x)).tranStatus = .COMPLETE ∧ (w.tran (w.heads x)).mapP = some dP ∧
      committed (w.tran (w.heads x)).last = true ↔ _
    rw [hfinished]
    refine and_congr_right fun hdone => ?_
    have hplace : ((w.tran (w.heads x)).mapP, (w.tran (w.heads x)).last) = ((w.tran x).mapP, (w.tran x).last) :=
      h.classes.place x hdone
    obtain ⟨hmap, hlast⟩ := Prod.mk.inj hplace
    rw [hmap, hlast]
  have hvalid : w'.classes.Valid := by
    rw [hclasses]
    refine hfree.move fun x hx => ?_
    have hnot : x ∉ l := by
      intro hxl
      rw [show (w.classes.free fun x => decide (x ∈ l)).status x = .FREE from if_pos (decide_eq_true hxl)] at hx
      exact absurd hx (by decide)
    change ((w'.tran x).mapP, (w'.tran x).last) = ((w.tran x).mapP, (w.tran x).last)
    rw [htran, if_neg hnot]
  have hnot : ∀ x, w'.classes.Existing x → x ∉ l := fun x hx hxl => hx ((hstatus x).trans (if_pos hxl))
  have hold : ∀ x, w'.classes.Existing x → w.classes.Existing x := by
    intro x hx
    have hsame : w'.classes.status x = w.classes.status x := (hstatus x).trans (if_neg (hnot x hx))
    rwa [Classes.Existing, hsame] at hx
  refine { hswept.books with classes := hvalid, sameMap := fun x hx => ?_, logged := fun x hx => ?_ }
  · have hheads : w'.heads x = w.heads x := hkept (·.ecHead) (fun _ => rfl) x
    rw [hheads, htran, htran, if_neg (hnot x hx), if_neg]
    · exact h.sameMap x (hold x hx)
    · have hhead := hnot _ (hvalid.closed x hx)
      rwa [show w'.classes.head x = w.heads x from hheads] at hhead
  · have hxl := hnot x (Classes.unfinished_iff.mp hx).1
    have hsame : w'.classes.status x = w.classes.status x := (hstatus x).trans (if_neg hxl)
    rw [Classes.Unfinished, hsame] at hx
    rw [htran, if_neg hxl]
    exact h.logged x hx

theorem collect_kept {gc : List (Dev × (LogPosition → Bool))} (h : Kept w) (hgc : collect gc w = some w') : Kept w' := by
  induction gc generalizing w with
  | nil => exact Option.some.inj hgc ▸ h
  | cons first gc ih =>
    obtain ⟨mid, hmid, hgc⟩ := Option.bind_eq_some_iff.mp hgc
    exact ih (elbt_GCTran_kept h hmid) hgc

end dce.episode.trans
