import Dce.Epi.TranSteps

open lib

namespace dce.episode.trans

variable {Dev : Type} [DecidableEq Dev]

/-- The merges that an event leaves: a transaction that starts has none. -/
def nextMerges : List (ℕ × ℕ) → Event → List (ℕ × ℕ)
  | merges, .started x => Classes.without x merges
  | merges, .merged x y => merges ++ [(x, y)]
  | merges, .pended _ => merges
  | merges, .bend _ _ => merges
  | merges, .written _ => merges
  | merges, .completed _ => merges
  | merges, .freed _ => merges

/-- The merges that were made of two transactions while both were unfinished. -/
def mergesOf (trace : List Event) : List (ℕ × ℕ) := trace.foldl nextMerges []

theorem mergesOf_append (trace es : List Event) : mergesOf (trace ++ es) = es.foldl nextMerges (mergesOf trace) :=
  List.foldl_append

/-- The equivalence classes in a world. A complete transaction is placed at its last position in its log. -/
def World.classes (w : World Dev) : Classes (Option Dev × LogPosition) where
  head := w.heads
  list x := (w.tran x).ecList
  size x := (w.tran x).ecSize
  status x := (w.tran x).tranStatus
  merges := mergesOf w.trace
  place x := ((w.tran x).mapP, (w.tran x).last)

/-- The invariant of the transactions. -/
structure Kept (w : World Dev) : Prop extends Books w where
  classes : w.classes.Valid
  sameMap : ∀ x, w.classes.Existing x → (w.tran (w.heads x)).mapP = (w.tran x).mapP
  logged : ∀ x, w.classes.Unfinished x → (w.tran x).mapP ≠ none

namespace Kept

variable {w w' : World Dev} {tP : ℕ}

theorem root (h : Kept w) {x : ℕ} (hx : w.classes.Existing x) : RootOf w.heads x (w.GetECHead x) := by
  obtain ⟨r, hr⟩ := h.classes.rooted x hx
  have hfollow := RootOf.follow (S := w.classes.Existing) (RootOf.up_iff.mpr hr) h.classes.closed (h.classes.closed x hx)
    (fun y hy => Finset.mem_range.mpr (h.toBooks.lt_allocated hy)) (Finset.card_range w.allocated).le
  have hget : w.GetECHead x = r := hfollow
  rwa [hget]

theorem mapP_root (h : Kept w) {x r : ℕ} (hx : w.classes.Existing x) (hr : RootOf w.heads x r) :
    (w.tran r).mapP = (w.tran x).mapP := by
  induction hr with
  | root _ => rfl
  | step _ _ ih => exact (ih (h.classes.closed _ hx)).trans (h.sameMap _ hx)

end Kept

/-- What the loop over the members of a class has done. -/
structure MembersDone (w w' : World Dev) (ecP : ℕ) (l : List ℕ) : Prop where
  head : ∀ x, (w'.tran x).ecHead = (w.tran x).ecHead
  list : ∀ x, (w'.tran x).ecList = if x = ecP then [] else (w.tran x).ecList
  size : ∀ x, (w'.tran x).ecSize = (w.tran x).ecSize
  status : ∀ x, (w'.tran x).tranStatus = if x ∈ l then .COMPLETE else (w.tran x).tranStatus
  mapP : ∀ x, (w'.tran x).mapP = (w.tran x).mapP
  last : ∀ x, (w'.tran x).last = if x ∈ l then (w.tran ecP).last else (w.tran x).last
  trace : w'.trace = w.trace ++ l.map .completed
  books : Books w'

omit [DecidableEq Dev] in
theorem setTran_tran (w : World Dev) (tP : ℕ) (t : elbt_TranRec Dev) (x : ℕ) :
    (w.setTran tP t).tran x = if x = tP then t else w.tran x := Function.update_apply ..

omit [DecidableEq Dev] in
theorem setTran_account {w : World Dev} {tP : ℕ} {t : elbt_TranRec Dev} (h : t.account = (w.tran tP).account) (x : ℕ) :
    ((w.setTran tP t).tran x).account = (w.tran x).account := by
  rw [setTran_tran]
  split_ifs with hx
  · rw [hx, h]
  · rfl

theorem completeMembers_done {w w' : World Dev} {ecP : ℕ} {l : List ℕ} (h : Books w) (hlist : (w.tran ecP).ecList = l)
    (hnot : ecP ∉ l) (hmaps : ∀ x ∈ l, (w.tran x).mapP ≠ none) (hloop : completeMembers ecP l w = some w') :
    MembersDone w w' ecP l := by
  induction l generalizing w with
  | nil =>
    obtain rfl := Option.some.inj hloop
    refine ⟨fun x => rfl, fun x => ?_, fun x => rfl, fun x => ?_, fun x => rfl, fun x => ?_, (List.append_nil _).symm, h⟩
    · by_cases hx : x = ecP
      · rw [if_pos hx, hx, hlist]
      · rw [if_neg hx]
    · rw [if_neg List.not_mem_nil]
    · rw [if_neg List.not_mem_nil]
  | cons n rest ih =>
    rw [List.mem_cons, not_or] at hnot
    obtain ⟨hne, hnot⟩ := hnot
    rw [completeMembers] at hloop
    obtain ⟨mid, hmid, hloop⟩ := Option.bind_eq_some_iff.mp hloop
    have hfirst : (w.setTran ecP { w.tran ecP with ecList := rest }).tran n = w.tran n := Function.update_of_ne (Ne.symm hne) ..
    have hhead : (w.setTran ecP { w.tran ecP with ecList := rest }).tran ecP = { w.tran ecP with ecList := rest } :=
      Function.update_self ..
    obtain ⟨dP, hdP⟩ := Option.ne_none_iff_exists'.mp (hmaps n List.mem_cons_self)
    have hbooks : Books (w.setTran ecP { w.tran ecP with ecList := rest }) :=
      h.quiet (setTran_account rfl) rfl rfl rfl (List.append_nil _).symm fun _ _ => rfl
    rw [← hfirst] at hdP
    obtain ⟨-, -, hchanged⟩ := CompleteTran_changed hmid hdP
    have htran : ∀ x, mid.tran x = if x = n then (w.tran n).completed (w.tran ecP).last
        else if x = ecP then { w.tran ecP with ecList := rest } else w.tran x := by
      intro x
      rw [hchanged.tran, World.lastOf, Option.elim_some, hfirst, hhead, Function.update_apply]
      by_cases hx : x = n
      · rw [if_pos hx, if_pos hx]
      · rw [if_neg hx, if_neg hx, setTran_tran]
    have hmidHead : mid.tran ecP = { w.tran ecP with ecList := rest } := by rw [htran, if_neg hne, if_pos rfl]
    have hmidMap : ∀ x, (mid.tran x).mapP = (w.tran x).mapP := by
      intro x
      rw [htran]
      split_ifs with hxn hxe
      · rw [hxn]; rfl
      · rw [hxe]
      · rfl
    have hdone := ih (hbooks.completed_tran hmid hdP) (by rw [hmidHead]) hnot
      (fun x hx => by rw [hmidMap]; exact hmaps x (List.mem_cons_of_mem _ hx)) hloop
    have hmem : ∀ x, x ∈ n :: rest ↔ x = n ∨ x ∈ rest := fun x => List.mem_cons
    refine ⟨fun x => ?_, fun x => ?_, fun x => ?_, fun x => ?_, fun x => ?_, fun x => ?_, ?_, hdone.books⟩
    · rw [hdone.head, htran]
      split_ifs with hxn hxe
      · rw [hxn]; rfl
      · rw [hxe]
      · rfl
    · rw [hdone.list, htran]
      split_ifs with hxe hxn
      · rfl
      · rw [hxn]; rfl
      · rfl
    · rw [hdone.size, htran]
      split_ifs with hxn hxe
      · rw [hxn]; rfl
      · rw [hxe]
      · rfl
    · rw [hdone.status, htran]
      simp only [hmem]
      by_cases hxn : x = n
      · simp [hxn, elbt_TranRec.completed]
      · by_cases hxe : x = ecP
        · simp [hxe, hne]
        · simp [hxn, hxe]
    · rw [hdone.mapP, hmidMap]
    · rw [hdone.last, hmidHead, htran]
      simp only [hmem]
      by_cases hxn : x = n
      · simp [hxn, elbt_TranRec.completed]
      · by_cases hxe : x = ecP
        · simp [hxe, hne]
        · simp [hxn, hxe]
    · rw [hdone.trace, hchanged.trace, List.append_assoc]
      rfl

/-- What is left in the trace when the class of `ecP` ends: a batch end record for each other member, one end record for the
head, and then all of them complete. -/
def endEvents (ecP : ℕ) (members : List ℕ) : List Event :=
  members.map (.bend ecP) ++ [.written ecP] ++ members.map .completed ++ [.completed ecP]

/-- The class of `ecP` has ended. -/
structure ClassDone (w w' : World Dev) (ecP : ℕ) (pos : LogPosition) : Prop where
  head : ∀ x, (w'.tran x).ecHead = (w.tran x).ecHead
  list : ∀ x, (w'.tran x).ecList = if x = ecP then [] else (w.tran x).ecList
  size : ∀ x, (w'.tran x).ecSize = (w.tran x).ecSize
  status : ∀ x, (w'.tran x).tranStatus = if x ∈ ecP :: (w.tran ecP).ecList then .COMPLETE else (w.tran x).tranStatus
  mapP : ∀ x, (w'.tran x).mapP = (w.tran x).mapP
  last : ∀ x, (w'.tran x).last = if x ∈ ecP :: (w.tran ecP).ecList then pos else (w.tran x).last
  trace : w'.trace = w.trace ++ endEvents ecP (w.tran ecP).ecList
  books : Books w'

omit [DecidableEq Dev] in
theorem writeEnd_tran (w : World Dev) (tP : ℕ) (bytes : BitVec 32) (pos : LogPosition) (x : ℕ) :
    (writeEnd w tP bytes pos).tran x =
      if x = tP then { w.tran tP with tranSize := (w.tran tP).tranSize + bytes, last := pos } else w.tran x :=
  setTran_tran ..

theorem Books.writeEnd {w : World Dev} (h : Books w) (tP : ℕ) (bytes : BitVec 32) (pos : LogPosition) :
    Books (writeEnd w tP bytes pos) := by
  refine h.quiet (fun x => ?_) rfl rfl rfl rfl fun _ _ => rfl
  rw [writeEnd_tran]
  split_ifs with hx
  · rw [hx]
    rfl
  · rfl

theorem classDone {w mid w' : World Dev} {ecP : ℕ} {bytes : BitVec 32} {pos : LogPosition} {ecHead : Option ℕ}
    (hmid : MembersDone (writeEnd (w.note ((w.tran ecP).ecList.map (.bend ecP))) ecP bytes pos) mid ecP (w.tran ecP).ecList)
    (hnot : ecP ∉ (w.tran ecP).ecList) (hmap : (w.tran ecP).mapP ≠ none) (hhead : ecHead = none ∨ ecHead = some ecP)
    (h : CompleteTran mid ecP ecHead = some w') : ClassDone w w' ecP pos := by
  obtain ⟨l, hl⟩ : ∃ l, l = (w.tran ecP).ecList := ⟨_, rfl⟩
  rw [← hl] at hmid hnot
  have hwritten : ∀ x, (writeEnd (w.note (l.map (.bend ecP))) ecP bytes pos).tran x =
      if x = ecP then { w.tran ecP with tranSize := (w.tran ecP).tranSize + bytes, last := pos } else w.tran x :=
    writeEnd_tran (w.note (l.map (.bend ecP))) ecP bytes pos
  have hmidMap : ∀ x, (mid.tran x).mapP = (w.tran x).mapP := by
    intro x
    rw [hmid.mapP, hwritten]
    split_ifs with hx
    · rw [hx]
    · rfl
  obtain ⟨dP, hdP⟩ := Option.ne_none_iff_exists'.mp hmap
  rw [← hmidMap] at hdP
  obtain ⟨-, -, hchanged⟩ := CompleteTran_changed h hdP
  have hmidLast : (mid.tran ecP).last = pos := by rw [hmid.last, if_neg hnot, hwritten, if_pos rfl]
  have hlast : mid.lastOf ecP ecHead = pos := by
    rcases hhead with rfl | rfl
    · exact hmidLast
    · exact hmidLast
  have htran : ∀ x, w'.tran x = if x = ecP then (mid.tran ecP).completed pos else mid.tran x := by
    intro x
    rw [hchanged.tran, Function.update_apply, hlast]
  have hmem : ∀ x, x ∈ ecP :: l ↔ x = ecP ∨ x ∈ l := fun x => List.mem_cons
  refine ⟨fun x => ?_, fun x => ?_, fun x => ?_, fun x => ?_, fun x => ?_, fun x => ?_, ?_, hmid.books.completed_tran h hdP⟩
  · have hkept : (w'.tran x).ecHead = (mid.tran x).ecHead := by
      rw [htran]
      split_ifs with hx
      · rw [hx]; rfl
      · rfl
    rw [hkept, hmid.head, hwritten]
    split_ifs with hx
    · rw [hx]
    · rfl
  · have hkept : (w'.tran x).ecList = (mid.tran x).ecList := by
      rw [htran]
      split_ifs with hx
      · rw [hx]; rfl
      · rfl
    rw [hkept, hmid.list, hwritten]
    split_ifs with hx
    · rfl
    · rfl
  · have hkept : (w'.tran x).ecSize = (mid.tran x).ecSize := by
      rw [htran]
      split_ifs with hx
      · rw [hx]; rfl
      · rfl
    rw [hkept, hmid.size, hwritten]
    split_ifs with hx
    · rw [hx]
    · rfl
  · rw [htran, ← hl]
    simp only [hmem]
    by_cases hx : x = ecP
    · simp [hx, elbt_TranRec.completed]
    · simp [hx, hmid.status, hwritten]
  · rw [← hmidMap, htran]
    split_ifs with hx
    · rw [hx]; rfl
    · rfl
  · rw [htran, ← hl]
    simp only [hmem]
    by_cases hx : x = ecP
    · simp [hx, elbt_TranRec.completed]
    · simp [hx, hmid.last, hwritten]
  · rw [hchanged.trace, hmid.trace, ← hl, endEvents]
    simp [writeEnd, World.note, World.setTran]

omit [DecidableEq Dev] in
theorem note_nil (w : World Dev) : w.note [] = w := by
  unfold World.note
  rw [List.append_nil]

theorem CompleteEC_done {w w' : World Dev} {ecP : ℕ} {bytes : BitVec 32} {pos : LogPosition} (hbooks : Books w)
    (hmaps : ∀ x ∈ ecP :: (w.tran ecP).ecList, (w.tran x).mapP ≠ none) (h : CompleteEC w ecP bytes pos = some w') :
    ClassDone w w' ecP pos := by
  unfold CompleteEC at h
  obtain ⟨bended, hbended, hrest⟩ := Option.bind_eq_some_iff.mp h
  unfold elbl_WriteBends at hbended
  obtain ⟨hnot, hbended⟩ := Option.ite_none_left_eq_some.mp hbended
  obtain rfl := Option.some.inj hbended
  obtain ⟨mid, hmid, hlast⟩ := Option.bind_eq_some_iff.mp hrest
  have hquiet : Books (w.note ((w.tran ecP).ecList.map (.bend ecP))) := by
    refine hbooks.quiet (fun _ => rfl) rfl rfl rfl rfl fun x s => ?_
    induction (w.tran ecP).ecList with
    | nil => rfl
    | cons y l ih => exact ih
  have hwritten := writeEnd_tran (w.note ((w.tran ecP).ecList.map (.bend ecP))) ecP bytes pos
  refine classDone (completeMembers_done (hquiet.writeEnd ecP bytes pos) ?_ hnot (fun x hx => ?_) hmid) hnot
    (hmaps ecP List.mem_cons_self) (.inr rfl) hlast
  · rw [hwritten, if_pos rfl]
    rfl
  · have hne : x ≠ ecP := fun hxe => hnot (hxe ▸ hx)
    rw [hwritten, if_neg hne]
    exact hmaps x (List.mem_cons_of_mem _ hx)

theorem CompleteTran_done {w w' : World Dev} {tP : ℕ} {bytes : BitVec 32} {pos : LogPosition} (hbooks : Books w)
    (hlist : (w.tran tP).ecList = []) (hmap : (w.tran tP).mapP ≠ none)
    (h : CompleteTran (writeEnd w tP bytes pos) tP none = some w') : ClassDone w w' tP pos := by
  have hmid : MembersDone (writeEnd w tP bytes pos) (writeEnd w tP bytes pos) tP [] := by
    refine completeMembers_done (hbooks.writeEnd tP bytes pos) ?_ List.not_mem_nil (fun x hx => absurd hx List.not_mem_nil) rfl
    rw [writeEnd_tran, if_pos rfl]
    exact hlist
  refine @classDone _ _ w (writeEnd w tP bytes pos) w' tP bytes pos none ?_ ?_ hmap (.inl rfl) h
  · rw [hlist, List.map_nil, note_nil]
    exact hmid
  · rw [hlist]
    exact List.not_mem_nil

end dce.episode.trans
