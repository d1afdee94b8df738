import Dce.Epi.TranClasses

open lib

namespace dce.episode.trans

variable {Dev : Type} [DecidableEq Dev] {w w' : World Dev}

theorem Kept.of_frame (h : Kept w) (hbooks : Books w') (hclasses : w'.classes.Valid)
    (hhead : ∀ x, (w'.tran x).ecHead = (w.tran x).ecHead) (hmapP : ∀ x, (w'.tran x).mapP = (w.tran x).mapP)
    (hexisting : ∀ x, w'.classes.Existing x → w.classes.Existing x)
    (hunfinished : ∀ x, w'.classes.Unfinished x → w.classes.Unfinished x) : Kept w' :=
  { hbooks with
    classes := hclasses
    sameMap := fun x hx => by
      have hheads : w'.heads x = w.heads x := hhead x
      rw [hheads, hmapP, hmapP]
      exact h.sameMap x (hexisting x hx)
    logged := fun x hx => by
      rw [hmapP]
      exact h.logged x (hunfinished x hx) }

def lessOne (w : World Dev) (r : ℕ) : World Dev := w.setTran r { w.tran r with ecSize := (w.tran r).ecSize - 1 }

omit [DecidableEq Dev] in
theorem lessOne_tran (w : World Dev) (r x : ℕ) :
    (lessOne w r).tran x = if x = r then { w.tran r with ecSize := (w.tran r).ecSize - 1 } else w.tran x := setTran_tran ..

theorem Books.lessOne (h : Books w) (r : ℕ) : Books (lessOne w r) :=
  h.quiet (setTran_account rfl) rfl rfl rfl (List.append_nil _).symm fun _ _ => rfl

/-- What `elbt_EndTran` does: it leaves the transaction pending, or it ends the whole class. -/
structure Ended (w w' : World Dev) (tP : ℕ) (pos : LogPosition) : Prop where
  active : (w.tran tP).tranStatus = .ACTIVE
  kept : Kept w'
  outcome :
    1 < (w.tran (w.GetECHead tP)).ecSize ∧ w'.classes = w.classes.pend tP (w.GetECHead tP) ∧
        w'.trace = w.trace ++ [.pended tP] ∨
      (w.tran (w.GetECHead tP)).ecSize = 1 ∧
        w'.classes = w.classes.finish (w.GetECHead tP) ((w.tran (w.GetECHead tP)).mapP, pos) ∧
        w'.trace = w.trace ++ endEvents (w.GetECHead tP) (w.tran (w.GetECHead tP)).ecList

theorem mergesOf_quiet {trace es : List Event} (h : ∀ merges, es.foldl nextMerges merges = merges) :
    mergesOf (trace ++ es) = mergesOf trace := by
  rw [mergesOf_append, h]

theorem endEvents_quiet (ecP : ℕ) (members : List ℕ) (merges : List (ℕ × ℕ)) :
    (endEvents ecP members).foldl nextMerges merges = merges := by
  have hbends : ∀ l : List ℕ, (l.map (Event.bend ecP)).foldl nextMerges merges = merges := by
    intro l
    induction l with
    | nil => rfl
    | cons x l ih => exact ih
  have hcompletes : ∀ l : List ℕ, (l.map Event.completed).foldl nextMerges merges = merges := by
    intro l
    induction l with
    | nil => rfl
    | cons x l ih => exact ih
  rw [endEvents, List.foldl_append, List.foldl_append, List.foldl_append, hbends]
  exact (congrArg (fun m => [Event.completed ecP].foldl nextMerges m) (hcompletes members))

variable {pos : LogPosition} {tP : ℕ}

variable (h : Kept w)

include h

theorem endTran_pended (hactive : (w.tran tP).tranStatus = .ACTIVE)
    (hsize : 1 < (w.tran (w.GetECHead tP)).ecSize) (hpend : PendTran (lessOne w (w.GetECHead tP)) tP = some w') :
    Ended w w' tP pos := by
  have hexists : w.classes.Existing tP := fun hfree => absurd (hactive.symm.trans hfree) (by decide)
  have hroot := h.root hexists
  obtain ⟨r, hr⟩ : ∃ r, r = w.GetECHead tP := ⟨_, rfl⟩
  rw [← hr] at hsize hpend hroot
  obtain ⟨dP, hdP⟩ := Option.ne_none_iff_exists'.mp (h.logged tP (.inl hactive))
  have hless : ∀ x, (lessOne w r).tran x = if x = r then { w.tran r with ecSize := (w.tran r).ecSize - 1 } else w.tran x :=
    lessOne_tran w r
  have hmap : ((lessOne w r).tran tP).mapP = some dP := by
    rw [hless]
    split_ifs with htr
    · rw [← htr]
      exact hdP
    · exact hdP
  obtain ⟨-, hchanged⟩ := PendTran_changed hpend hmap
  have htran : ∀ x, w'.tran x = if x = tP then ((lessOne w r).tran tP).pended ((lessOne w r).map dP).maxEndSize
      else (lessOne w r).tran x := by
    intro x
    rw [hchanged.tran, Function.update_apply]
  have hkept : ∀ {β : Type} (f : elbt_TranRec Dev → β),
      (∀ t e, f (elbt_TranRec.pended t e) = f t) → (∀ t n, f { t with ecSize := n } = f t) →
        ∀ x, f (w'.tran x) = f (w.tran x) := by
    intro β f hpended hsized x
    have hlessf : ∀ x, f ((lessOne w r).tran x) = f (w.tran x) := by
      intro x
      rw [hless]
      split_ifs with hxr
      · rw [hxr]
        exact hsized _ _
      · rfl
    rw [htran]
    split_ifs with hxt
    · rw [hpended, hlessf, hxt]
    · exact hlessf x
  have hclasses : w'.classes = w.classes.pend tP r := by
    apply Classes.ext
    · exact funext fun x => hkept (·.ecHead) (fun _ _ => rfl) (fun _ _ => rfl) x
    · exact funext fun x => hkept (·.ecList) (fun _ _ => rfl) (fun _ _ => rfl) x
    · funext x
      change (w'.tran x).ecSize = Function.update (fun y => (w.tran y).ecSize) r ((w.tran r).ecSize - 1) x
      rw [htran, Function.update_apply]
      by_cases hxt : x = tP
      · rw [if_pos hxt, ← hxt]
        change ((lessOne w r).tran x).ecSize = _
        rw [hless]
        split_ifs
        · rfl
        · rfl
      · rw [if_neg hxt, hless]
        split_ifs
        · rfl
        · rfl
    · funext x
      change (w'.tran x).tranStatus = Function.update (fun y => (w.tran y).tranStatus) tP .PENDING x
      rw [htran, Function.update_apply]
      split_ifs with hxt
      · rfl
      · rw [hless]
        split_ifs with hxr
        · rw [hxr]
        · rfl
    · change mergesOf w'.trace = mergesOf w.trace
      rw [hchanged.trace]
      exact mergesOf_quiet fun _ => rfl
    · funext x
      exact Prod.ext (hkept (·.mapP) (fun _ _ => rfl) (fun _ _ => rfl) x)
        (hkept (·.last) (fun _ _ => rfl) (fun _ _ => rfl) x)
  have hvalid : w'.classes.Valid := hclasses ▸ h.classes.pend hactive hroot hsize
  refine ⟨hactive, h.of_frame ((h.toBooks.lessOne r).pended hpend hmap) hvalid
    (hkept (·.ecHead) (fun _ _ => rfl) (fun _ _ => rfl)) (hkept (·.mapP) (fun _ _ => rfl) (fun _ _ => rfl)) ?_ ?_, ?_⟩
  · intro x hx
    rw [hclasses] at hx
    by_cases hxt : x = tP
    · exact hxt ▸ hexists
    · have hsame : (w.classes.pend tP r).status x = w.classes.status x := Function.update_of_ne hxt ..
      rwa [Classes.Existing, hsame] at hx
  · intro x hx
    rw [hclasses] at hx
    by_cases hxt : x = tP
    · exact hxt ▸ .inl hactive
    · have hsame : (w.classes.pend tP r).status x = w.classes.status x := Function.update_of_ne hxt ..
      rwa [Classes.Unfinished, hsame] at hx
  · rw [← hr]
    exact .inl ⟨hsize, hclasses, hchanged.trace⟩

theorem endTran_finished (hactive : (w.tran tP).tranStatus = .ACTIVE)
    (hsize : (w.tran (w.GetECHead tP)).ecSize = 1) (hdone : ClassDone (lessOne w (w.GetECHead tP)) w' (w.GetECHead tP) pos) :
    Ended w w' tP pos := by
  have hexists : w.classes.Existing tP := fun hfree => absurd (hactive.symm.trans hfree) (by decide)
  have hroot := h.root hexists
  obtain ⟨r, hr⟩ : ∃ r, r = w.GetECHead tP := ⟨_, rfl⟩
  rw [← hr] at hsize hdone hroot
  have hself : w.classes.head r = r := hroot.isRoot
  have hunf : w.classes.Unfinished r := h.classes.unfinished_root (.inl hactive) hroot
  have hless : ∀ x, (lessOne w r).tran x = if x = r then { w.tran r with ecSize := (w.tran r).ecSize - 1 } else w.tran x :=
    lessOne_tran w r
  have hkept : ∀ {β : Type} (f : elbt_TranRec Dev → β), (∀ t n, f { t with ecSize := n } = f t) →
      ∀ x, f ((lessOne w r).tran x) = f (w.tran x) := by
    intro β f hsized x
    rw [hless]
    split_ifs with hxr
    · rw [hxr]
      exact hsized _ _
    · rfl
  have hlist : ∀ x, ((lessOne w r).tran x).ecList = (w.tran x).ecList := hkept (·.ecList) fun _ _ => rfl
  have hhead : ∀ x, (w'.tran x).ecHead = (w.tran x).ecHead := fun x =>
    (hdone.head x).trans (hkept (·.ecHead) (fun _ _ => rfl) x)
  have hmapP : ∀ x, (w'.tran x).mapP = (w.tran x).mapP := fun x =>
    (hdone.mapP x).trans (hkept (·.mapP) (fun _ _ => rfl) x)
  have hstatus : ∀ x, (w'.tran x).tranStatus = if x ∈ r :: (w.tran r).ecList then .COMPLETE else (w.tran x).tranStatus := by
    intro x
    rw [hdone.status, hlist, hkept (·.tranStatus) fun _ _ => rfl]
  have htrace : w'.trace = w.trace ++ endEvents r (w.tran r).ecList := by
    rw [hdone.trace, hlist]
    rfl
  have hclasses : w'.classes = w.classes.finish r ((w.tran r).mapP, pos) := by
    apply Classes.ext
    · exact funext hhead
    · funext x
      change (w'.tran x).ecList = Function.update (fun y => (w.tran y).ecList) r [] x
      rw [hdone.list, hlist, Function.update_apply]
    · funext x
      change (w'.tran x).ecSize = Function.update (fun y => (w.tran y).ecSize) r 0 x
      rw [hdone.size, hless, Function.update_apply]
      split_ifs
      · rw [hsize]
      · rfl
    · exact funext hstatus
    · change mergesOf w'.trace = mergesOf w.trace
      rw [htrace]
      exact mergesOf_quiet (endEvents_quiet r _)
    · funext x
      change ((w'.tran x).mapP, (w'.tran x).last) =
        if x ∈ r :: (w.tran r).ecList then ((w.tran r).mapP, pos) else ((w.tran x).mapP, (w.tran x).last)
      rw [hmapP, hdone.last, hlist]
      by_cases hx : x ∈ r :: (w.tran r).ecList
      · obtain ⟨hex, hxr⟩ := (h.classes.mem_class hself hunf).mp hx
        rw [if_pos hx, if_pos hx, h.mapP_root hex hxr]
      · rw [if_neg hx, if_neg hx, hkept (·.last) fun _ _ => rfl]
  refine ⟨hactive, h.of_frame hdone.books (hclasses ▸ h.classes.finish hself hunf _) hhead hmapP ?_ ?_, ?_⟩
  · intro x hx
    by_cases hmem : x ∈ r :: (w.tran r).ecList
    · exact ((h.classes.mem_class hself hunf).mp hmem).1
    · have hsame : w'.classes.status x = w.classes.status x := (hstatus x).trans (if_neg hmem)
      rwa [Classes.Existing, hsame] at hx
  · intro x hx
    have hmem : x ∉ r :: (w.tran r).ecList := by
      intro hmem
      exact (Classes.unfinished_iff.mp hx).2 ((hstatus x).trans (if_pos hmem))
    have hsame : w'.classes.status x = w.classes.status x := (hstatus x).trans (if_neg hmem)
    rwa [Classes.Unfinished, hsame] at hx
  · rw [← hr]
    exact .inr ⟨hsize, hclasses, htrace⟩

theorem endTran_ended {bytes : BitVec 32} (hend : endTran w tP bytes pos = some w') : Ended w w' tP pos := by
  unfold endTran at hend
  obtain ⟨r, hr⟩ : ∃ r, r = w.GetECHead tP := ⟨_, rfl⟩
  dsimp only at hend
  rw [← hr] at hend
  obtain ⟨hguard, hend⟩ := Option.ite_none_right_eq_some.mp hend
  obtain ⟨hactive, hpos⟩ := hguard
  have hexists : w.classes.Existing tP := fun hfree => absurd (hactive.symm.trans hfree) (by decide)
  have hroot := h.root hexists
  rw [← hr] at hroot
  have hself : (lessOne w r).tran r = { w.tran r with ecSize := (w.tran r).ecSize - 1 } :=
    (lessOne_tran w r r).trans (if_pos rfl)
  have hlist : ((lessOne w r).tran r).ecList = (w.tran r).ecList := congrArg (·.ecList) hself
  have hmaps : ∀ x ∈ r :: (w.tran r).ecList, ((lessOne w r).tran x).mapP ≠ none := by
    intro x hx
    obtain ⟨hex, hxr⟩ := (h.classes.mem_class hroot.isRoot (h.classes.unfinished_root (.inl hactive) hroot)).mp hx
    have hmap := h.logged tP (.inl hactive)
    rw [← h.mapP_root hexists hroot, h.mapP_root hex hxr] at hmap
    rw [lessOne_tran]
    split_ifs with hxe
    · rw [← hxe]
      exact hmap
    · exact hmap
  change (if 0 < ((lessOne w r).tran r).ecSize then PendTran (lessOne w r) tP
    else if ((lessOne w r).tran r).ecList = [] then
      if r = tP then CompleteTran (writeEnd (lessOne w r) tP bytes pos) tP none else none
    else CompleteEC (lessOne w r) r bytes pos) = some w' at hend
  by_cases hmore : 0 < ((lessOne w r).tran r).ecSize
  · rw [if_pos hmore] at hend
    rw [hself] at hmore
    dsimp only at hmore
    rw [hr] at hend hmore
    exact endTran_pended h hactive (by omega) hend
  · rw [if_neg hmore] at hend
    rw [hself] at hmore
    dsimp only at hmore
    have hone : (w.tran r).ecSize = 1 := by omega
    have hdone : ClassDone (lessOne w r) w' r pos := by
      by_cases hnil : ((lessOne w r).tran r).ecList = []
      · rw [if_pos hnil] at hend
        obtain ⟨hrt, hend⟩ := Option.ite_none_right_eq_some.mp hend
        subst hrt
        exact CompleteTran_done (h.toBooks.lessOne r) hnil (hmaps r List.mem_cons_self) hend
      · rw [if_neg hnil] at hend
        refine CompleteEC_done (h.toBooks.lessOne r) ?_ hend
        rw [hlist]
        exact hmaps
    rw [hr] at hone hdone
    exact endTran_finished h hactive hone hdone

theorem folded_kept {t₁ t₂ r₁ r₂ : ℕ} (hr₁ : w.heads r₁ = r₁) (hr₂ : w.heads r₂ = r₂) (hne : r₁ ≠ r₂)
    (hunf₁ : w.classes.Unfinished r₁) (hunf₂ : w.classes.Unfinished r₂) (ht₁ : w.classes.Existing t₁)
    (ht₂ : w.classes.Existing t₂)
    (hroots : RootOf w.heads t₁ r₁ ∧ RootOf w.heads t₂ r₂ ∨ RootOf w.heads t₁ r₂ ∧ RootOf w.heads t₂ r₁)
    (hmaps : (w.tran r₁).mapP = (w.tran r₂).mapP) : Kept (fold (w.note [.merged t₁ t₂]) r₁ r₂) := by
  obtain ⟨w', hw'⟩ : ∃ w', w' = fold (w.note [.merged t₁ t₂]) r₁ r₂ := ⟨_, rfl⟩
  rw [← hw']
  have htran : ∀ x, w'.tran x =
      if x = r₁ then { w.tran r₁ with ecSize := 0, ecHead := r₂, ecList := [] }
      else if x = r₂ then { w.tran r₂ with ecSize := (w.tran r₂).ecSize + (w.tran r₁).ecSize
                                           ecList := (w.tran r₂).ecList ++ (w.tran r₁).ecList ++ [r₁] }
      else w.tran x := by
    intro x
    rw [hw', fold]
    dsimp only
    rw [setTran_tran, setTran_tran]
    rfl
  have hkept : ∀ {β : Type} (f : elbt_TranRec Dev → β), (∀ t n hd l, f { t with ecSize := n, ecHead := hd, ecList := l } = f t) →
      ∀ x, f (w'.tran x) = f (w.tran x) := by
    intro β f hsame x
    rw [htran]
    split_ifs with hx₁ hx₂
    · rw [hx₁]
      exact hsame ..
    · rw [hx₂]
      exact hsame ..
    · rfl
  have hhead : ∀ x, (w'.tran x).ecHead = if x = r₁ then r₂ else (w.tran x).ecHead := by
    intro x
    rw [htran]
    split_ifs with hx₁ hx₂
    · rfl
    · rw [hx₂]
    · rfl
  have hclasses : w'.classes = (w.classes.join r₁ r₂).merge t₁ t₂ := by
    apply Classes.ext
    · funext x
      change (w'.tran x).ecHead = Function.update w.heads r₁ r₂ x
      rw [hhead, Function.update_apply]
      rfl
    · funext x
      change (w'.tran x).ecList = Function.update (Function.update (fun y => (w.tran y).ecList) r₂
        ((w.tran r₂).ecList ++ (w.tran r₁).ecList ++ [r₁])) r₁ [] x
      rw [htran, Function.update_apply, Function.update_apply]
      split_ifs
      · rfl
      · rfl
      · rfl
    · funext x
      change (w'.tran x).ecSize = Function.update (Function.update (fun y => (w.tran y).ecSize) r₂
        ((w.tran r₂).ecSize + (w.tran r₁).ecSize)) r₁ 0 x
      rw [htran, Function.update_apply, Function.update_apply]
      split_ifs
      · rfl
      · rfl
      · rfl
    · exact funext fun x => hkept (·.tranStatus) (fun _ _ _ _ => rfl) x
    · change mergesOf w'.trace = mergesOf w.trace ++ [(t₁, t₂)]
      have htrace : w'.trace = w.trace ++ [.merged t₁ t₂] := by
        rw [hw']
        rfl
      rw [htrace, mergesOf_append]
      rfl
    · funext x
      exact Prod.ext (hkept (·.mapP) (fun _ _ _ _ => rfl) x) (hkept (·.last) (fun _ _ _ _ => rfl) x)
  have hstatus : w'.classes.status = w.classes.status := funext fun x => hkept (·.tranStatus) (fun _ _ _ _ => rfl) x
  have hmapP : ∀ x, (w'.tran x).mapP = (w.tran x).mapP := hkept (·.mapP) fun _ _ _ _ => rfl
  have hbooks : Books w' := by
    rw [hw']
    refine h.toBooks.quiet (fun x => ?_) rfl rfl rfl rfl fun _ _ => rfl
    rw [← hw']
    exact hkept elbt_TranRec.account (fun _ _ _ _ => rfl) x
  refine { hbooks with classes := hclasses ▸ h.classes.join hr₁ hr₂ hne hunf₁ hunf₂ ht₁ ht₂ hroots, sameMap := ?_, logged := ?_ }
  · intro x hx
    rw [Classes.Existing, hstatus] at hx
    rw [hmapP, hmapP, World.heads, hhead]
    split_ifs with hx₁
    · rw [hx₁, hmaps]
    · exact h.sameMap x hx
  · intro x hx
    rw [Classes.Unfinished, hstatus] at hx
    rw [hmapP]
    exact h.logged x hx

theorem ecMerge_kept {t₁ t₂ : ℕ} (hmerge : ecMerge w t₁ t₂ = some w') : Kept w' := by
  unfold ecMerge at hmerge
  obtain ⟨hactive, hmerge⟩ := Option.ite_none_left_eq_some.mp hmerge
  by_cases hgone : (w.tran t₁).tranStatus = .FREE ∨ (w.tran t₁).tranStatus = .COMPLETE
  · rw [if_pos hgone] at hmerge
    obtain rfl := Option.some.inj hmerge
    exact h
  rw [if_neg hgone] at hmerge
  obtain ⟨hmap, hmerge⟩ := Option.ite_none_left_eq_some.mp hmerge
  rw [not_or] at hgone
  have hactive := not_not.mp hactive
  have hmap := not_not.mp hmap
  have hunf₁ : w.classes.Unfinished t₁ := Classes.unfinished_iff.mpr hgone
  have hunf₂ : w.classes.Unfinished t₂ := .inl hactive
  have ht₁ := (Classes.unfinished_iff.mp hunf₁).1
  have ht₂ := (Classes.unfinished_iff.mp hunf₂).1
  have hroot₁ := h.root ht₁
  have hroot₂ := h.root ht₂
  obtain ⟨r₁, hr₁⟩ : ∃ r, r = w.GetECHead t₁ := ⟨_, rfl⟩
  obtain ⟨r₂, hr₂⟩ : ∃ r, r = w.GetECHead t₂ := ⟨_, rfl⟩
  rw [← hr₁] at hroot₁ hmerge
  rw [← hr₂] at hroot₂ hmerge
  have hmaps : (w.tran r₁).mapP = (w.tran r₂).mapP := by
    rw [h.mapP_root ht₁ hroot₁, h.mapP_root ht₂ hroot₂, hmap]
  have hunfr₁ := h.classes.unfinished_root hunf₁ hroot₁
  have hunfr₂ := h.classes.unfinished_root hunf₂ hroot₂
  dsimp only at hmerge
  by_cases hsame : r₁ = r₂
  · rw [if_pos hsame] at hmerge
    obtain rfl := Option.some.inj hmerge
    have hclasses : (w.note [.merged t₁ t₂]).classes = w.classes.merge t₁ t₂ := by
      refine Classes.ext rfl rfl rfl rfl ?_ rfl
      exact mergesOf_append w.trace _
    have hbooks : Books (w.note [.merged t₁ t₂]) := h.toBooks.quiet (fun _ => rfl) rfl rfl rfl rfl fun _ _ => rfl
    refine h.of_frame hbooks (hclasses ▸ h.classes.merge ht₁ ht₂ ⟨r₁, hroot₁, hsame ▸ hroot₂⟩) (fun _ => rfl) (fun _ => rfl)
      (fun _ => id) fun _ => id
  rw [if_neg hsame] at hmerge
  split_ifs at hmerge with hzero hmore
  · obtain rfl := Option.some.inj hmerge
    exact folded_kept h hroot₂.isRoot hroot₁.isRoot (Ne.symm hsame) hunfr₂ hunfr₁ ht₁ ht₂ (.inr ⟨hroot₁, hroot₂⟩) hmaps.symm
  · obtain rfl := Option.some.inj hmerge
    exact folded_kept h hroot₁.isRoot hroot₂.isRoot hsame hunfr₁ hunfr₂ ht₁ ht₂ (.inl ⟨hroot₁, hroot₂⟩) hmaps

theorem elbt_ECMerge_kept {tran1 tran2 : BitVec 32} {found1 : Option ℕ} {found2 : ℕ}
    (hmerge : elbt_ECMerge w tran1 tran2 found1 found2 = some w') : Kept w' := by
  unfold elbt_ECMerge at hmerge
  by_cases hequal : tran1 = tran2
  · rw [if_pos hequal] at hmerge
    exact Option.some.inj hmerge ▸ h
  rw [if_neg hequal] at hmerge
  obtain ⟨hfound, hmerge⟩ := Option.ite_none_right_eq_some.mp hmerge
  cases found1 with
  | none => exact Option.some.inj hmerge ▸ h
  | some t₁ =>
    rw [Option.elim_some] at hmerge
    split_ifs at hmerge with hfound2
    exact ecMerge_kept h hmerge

theorem logUpdate_kept {bytes : BitVec 32} (hlog : logUpdate w tP bytes pos = some w') : Kept w' := by
  unfold logUpdate at hlog
  split_ifs at hlog with hactive
  obtain rfl := Option.some.inj hlog
  obtain ⟨t, ht⟩ : ∃ t, t = { w.tran tP with tranSize := (w.tran tP).tranSize + bytes, last := pos } := ⟨_, rfl⟩
  rw [← ht]
  have hkept : ∀ {β : Type} (f : elbt_TranRec Dev → β), f t = f (w.tran tP) → ∀ x, f ((w.setTran tP t).tran x) = f (w.tran x) := by
    intro β f hsame x
    rw [setTran_tran]
    split_ifs with hx
    · rw [hx, hsame]
    · rfl
  have hmapP := hkept (·.mapP) (by rw [ht])
  have hhead := hkept (·.ecHead) (by rw [ht])
  have hstatus := hkept (·.tranStatus) (by rw [ht])
  have hbooks : Books (w.setTran tP t) :=
    h.toBooks.quiet (hkept elbt_TranRec.account (by rw [ht]; rfl)) rfl rfl rfl (List.append_nil _).symm fun _ _ => rfl
  have hclasses : (w.setTran tP t).classes = { w.classes with place := (w.setTran tP t).classes.place } :=
    Classes.ext (funext hhead) (funext (hkept (·.ecList) (by rw [ht]))) (funext (hkept (·.ecSize) (by rw [ht])))
      (funext hstatus) rfl rfl
  have hvalid : (w.setTran tP t).classes.Valid := by
    rw [hclasses]
    refine h.classes.move fun x hx => ?_
    have hne : x ≠ tP := by
      rintro rfl
      exact absurd (hactive.symm.trans hx) (by decide)
    change (((w.setTran tP t).tran x).mapP, ((w.setTran tP t).tran x).last) = ((w.tran x).mapP, (w.tran x).last)
    rw [setTran_tran, if_neg hne]
  refine h.of_frame hbooks hvalid hhead hmapP (fun x hx => ?_) fun x hx => ?_
  · rwa [Classes.Existing, hclasses] at hx
  · rwa [Classes.Unfinished, hclasses] at hx

end dce.episode.trans
