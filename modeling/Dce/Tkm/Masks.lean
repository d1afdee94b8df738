import Mathlib.Algebra.BigOperators.Group.List.Basic
import Dce.Tkm.Conservation

open lib Relation

namespace dce.tkm

variable {φ ν τ : Type} {L : Layout φ ν}

def Heap.mask (h : Heap φ ν) : Holder φ ν → TokenMask
  | .file f => (h.file f).granted.mask
  | .volume v => (h.volume v).granted.mask

def Heap.count (h : Heap φ ν) (holder : Holder φ ν) (i : TokenType) : ℕ :=
  (h.granted holder).countP fun p => i ∈ (h.token p).types

def TokenMask.Fits (mask : TokenMask) : Prop := ∀ i, i ∈ mask.typeSum ↔ 0 < mask.counter i

/-- The masks have the right bits, and the counters of the files add up. -/
structure Masks (L : Layout φ ν) (h : Heap φ ν) : Prop where
  fits : ∀ holder, (h.mask holder).Fits
  fileFits : ∀ v, (h.volume v).fileTokens.Fits
  sum : ∀ v i, (h.volume v).fileTokens.counter i = ((L.files v).map fun f => (h.mask (.file f)).counter i).sum

def Heap.Covered (h : Heap φ ν) : Prop := ∀ holder i, h.count holder i ≤ (h.mask holder).counter i

def Heap.Counted (h : Heap φ ν) : Prop := ∀ holder i, (h.mask holder).counter i = h.count holder i

/-- The masks are exact. -/
structure MasksExact (L : Layout φ ν) (h : Heap φ ν) : Prop where
  counter : ∀ holder i, (h.mask holder).counter i = h.count holder i
  fileTokens : ∀ v i, (h.volume v).fileTokens.counter i = ((L.files v).map fun f => h.count (.file f) i).sum
  typeSum : ∀ holder i, i ∈ (h.mask holder).typeSum ↔ 0 < (h.mask holder).counter i
  fileTypeSum : ∀ v i, i ∈ (h.volume v).fileTokens.typeSum ↔ 0 < (h.volume v).fileTokens.counter i

theorem Masks.exact {h : Heap φ ν} (hmasks : Masks L h) (hcounted : h.Counted) : MasksExact L h where
  counter := hcounted
  fileTokens v i := by
    rw [hmasks.sum]
    exact congrArg List.sum (List.map_congr_left fun f _ => hcounted (.file f) i)
  typeSum holder := hmasks.fits holder
  fileTypeSum := hmasks.fileFits

namespace TokenMask.Fits

variable {mask mask' : TokenMask} {types : Types}

theorem add (hfits : mask.Fits) : (tkm_AddToTokenMask mask types).Fits := fun i => by
  by_cases hi : i ∈ types
  · simp [tkm_AddToTokenMask, hi]
  · simpa [tkm_AddToTokenMask, hi] using hfits i

theorem remove (hfits : mask.Fits) (hremove : tkm_RemoveFromTokenMask mask types = some mask') : mask'.Fits := by
  rw [tkm_RemoveFromTokenMask] at hremove
  split at hremove
  · simp at hremove
  · obtain rfl := Option.some.inj hremove
    intro i
    have hi := hfits i
    by_cases hmem : i ∈ types
    · simp only [Finset.mem_filter, hi, hmem, true_and, if_true]
      omega
    · simp [hmem, hi]

end TokenMask.Fits

def TokenMask.Bumps (mask mask' : TokenMask) (types : Types) : Prop :=
  ∀ i, mask'.counter i = mask.counter i + if i ∈ types then 1 else 0

theorem TokenMask.Bumps.add (mask : TokenMask) (types : Types) : mask.Bumps (tkm_AddToTokenMask mask types) types :=
  fun i => by by_cases hi : i ∈ types <;> simp [tkm_AddToTokenMask, hi]

theorem TokenMask.Bumps.remove {mask mask' : TokenMask} {types : Types}
    (hremove : tkm_RemoveFromTokenMask mask types = some mask') : mask'.Bumps mask types := by
  rw [tkm_RemoveFromTokenMask] at hremove
  obtain ⟨hpositive, hremove⟩ := Option.ite_none_left_eq_some.mp hremove
  obtain rfl := Option.some.inj hremove
  rw [not_exists] at hpositive
  intro i
  by_cases hi : i ∈ types
  · have hi' : mask.counter i ≠ 0 := fun h => hpositive i ⟨hi, h⟩
    simp only [hi, if_true]
    omega
  · simp [hi]

variable [DecidableEq φ] [DecidableEq ν]

/-- The masks of `h'` are those of `h` with some more types for one holder. -/
structure Heap.MaskBumps (L : Layout φ ν) (h h' : Heap φ ν) (holder : Holder φ ν) (types : Types) : Prop where
  self : (h.mask holder).Bumps (h'.mask holder) types
  other : ∀ holder', holder' ≠ holder → h'.mask holder' = h.mask holder'
  files : ∀ f, holder = .file f → (h.volume (L.vol f)).fileTokens.Bumps (h'.volume (L.vol f)).fileTokens types
  otherFiles : ∀ v, (∀ f, holder = .file f → v ≠ L.vol f) → (h'.volume v).fileTokens = (h.volume v).fileTokens

theorem sum_map_bump {f : φ} {files : List φ} (hnodup : files.Nodup) {g g' : φ → ℕ} {n : ℕ} (hf : g' f = g f + n)
    (hother : ∀ f', f' ≠ f → g' f' = g f') : (files.map g').sum = (files.map g).sum + if f ∈ files then n else 0 := by
  induction files with
  | nil => simp
  | cons f' files ih =>
    obtain ⟨hfresh, hrest⟩ := List.nodup_cons.mp hnodup
    rw [List.map_cons, List.map_cons, List.sum_cons, List.sum_cons, ih hrest]
    by_cases heq : f = f'
    · subst heq
      simp [hfresh, hf]
      omega
    · simp [heq, hother f' (Ne.symm heq)]
      omega

theorem Heap.MaskBumps.sum_iff {h h' : Heap φ ν} {holder : Holder φ ν} {types : Types}
    (hbumps : h.MaskBumps L h' holder types) (v : ν) (i : TokenType) :
    (h'.volume v).fileTokens.counter i = ((L.files v).map fun f => (h'.mask (.file f)).counter i).sum ↔
      (h.volume v).fileTokens.counter i = ((L.files v).map fun f => (h.mask (.file f)).counter i).sum := by
  cases holder with
  | volume w =>
    rw [hbumps.otherFiles v (by simp)]
    simp only [hbumps.other (.file _) (by simp)]
  | file f =>
    have hsum := sum_map_bump (L.nodup_files v) (hbumps.self i) fun f' hf' =>
      congrArg (TokenMask.counter · i) (hbumps.other (.file f') (by simpa using hf'))
    rw [hsum]
    by_cases hv : v = L.vol f
    · subst hv
      rw [hbumps.files f rfl i, if_pos ((L.mem_files _ f).mpr rfl)]
      exact Nat.add_right_cancel_iff
    · rw [hbumps.otherFiles v fun f' hf' => by simpa [← Holder.file.inj hf'] using hv,
        if_neg fun hf => hv ((L.mem_files v f).mp hf).symm, Nat.add_zero]

/-- All masks have the right bits. -/
structure Heap.Fits (h : Heap φ ν) : Prop where
  mask : ∀ holder, (h.mask holder).Fits
  files : ∀ v, (h.volume v).fileTokens.Fits

theorem tkm_GrantHolderToken_masks {h h' : Heap φ ν} {p : Ptr} {holder : Holder φ ν}
    (hholder : (h.token p).holder = some holder) (hgrant : tkm_GrantHolderToken L h p = some h') :
    h.MaskBumps L h' holder (h.token p).types ∧ (h.Fits → h'.Fits) := by
  rw [tkm_GrantHolderToken] at hgrant
  cases holder with
  | volume v =>
    simp only [hholder, Option.some.injEq] at hgrant
    subst hgrant
    refine ⟨⟨?_, ?_, by simp, ?_⟩, fun hfits => ⟨?_, fun w => ?_⟩⟩
    · simpa [Heap.mask, Heap.setVolume] using TokenMask.Bumps.add _ _
    · rintro (f | w) hne
      · rfl
      · have hw : w ≠ v := by simpa using hne
        simp [Heap.mask, Heap.setVolume, hw]
    · intro w _
      by_cases hw : w = v <;> simp [Heap.setVolume, hw]
    · rintro (f | w)
      · exact hfits.mask (.file f)
      · by_cases hw : w = v
        · simpa [Heap.mask, Heap.setVolume, hw] using (hfits.mask (.volume v)).add
        · simpa [Heap.mask, Heap.setVolume, hw] using hfits.mask (.volume w)
    · by_cases hw : w = v <;> simpa [Heap.setVolume, hw] using hfits.files _
  | file f =>
    simp only [hholder, Option.some.injEq] at hgrant
    subst hgrant
    refine ⟨⟨?_, ?_, ?_, ?_⟩, fun hfits => ⟨?_, fun w => ?_⟩⟩
    · simpa [Heap.mask, Heap.setVolume, Heap.setFile] using TokenMask.Bumps.add _ _
    · rintro (g | w) hne
      · have hg : g ≠ f := by simpa using hne
        simp [Heap.mask, Heap.setVolume, Heap.setFile, hg]
      · by_cases hw : w = L.vol f <;> simp [Heap.mask, Heap.setVolume, Heap.setFile, hw]
    · rintro g hg
      obtain rfl := Holder.file.inj hg
      simpa [Heap.setVolume] using TokenMask.Bumps.add _ _
    · intro w hw
      simp [Heap.setVolume, Heap.setFile, hw f rfl]
    · rintro (g | w)
      · by_cases hg : g = f
        · simpa [Heap.mask, Heap.setVolume, Heap.setFile, hg] using (hfits.mask (.file f)).add
        · simpa [Heap.mask, Heap.setVolume, Heap.setFile, hg] using hfits.mask (.file g)
      · by_cases hw : w = L.vol f
        · simpa [Heap.mask, Heap.setVolume, Heap.setFile, hw] using hfits.mask (.volume (L.vol f))
        · simpa [Heap.mask, Heap.setVolume, Heap.setFile, hw] using hfits.mask (.volume w)
    · by_cases hw : w = L.vol f
      · simpa [Heap.setVolume, hw] using (hfits.files (L.vol f)).add
      · simpa [Heap.setVolume, Heap.setFile, hw] using hfits.files w

theorem TKM_REMOVE_FROM_MASK_masks {h h' : Heap φ ν} {p : Ptr} {types : Types} {holder : Holder φ ν}
    (hholder : (h.token p).holder = some holder) (hremove : TKM_REMOVE_FROM_MASK L h p types = some h') :
    h'.MaskBumps L h holder types ∧ (h.Fits → h'.Fits) := by
  rw [TKM_REMOVE_FROM_MASK, hholder] at hremove
  cases holder with
  | volume v =>
    obtain ⟨mask, hmask, rfl⟩ := Option.map_eq_some_iff.mp hremove
    refine ⟨⟨?_, ?_, by simp, ?_⟩, fun hfits => ⟨?_, fun w => ?_⟩⟩
    · simpa [Heap.mask, Heap.setVolume] using TokenMask.Bumps.remove hmask
    · rintro (f | w) hne
      · rfl
      · have hw : w ≠ v := by simpa using hne
        simp [Heap.mask, Heap.setVolume, hw]
    · intro w _
      by_cases hw : w = v <;> simp [Heap.setVolume, hw]
    · rintro (f | w)
      · exact hfits.mask (.file f)
      · by_cases hw : w = v
        · simpa [Heap.mask, Heap.setVolume, hw] using (hfits.mask (.volume v)).remove hmask
        · simpa [Heap.mask, Heap.setVolume, hw] using hfits.mask (.volume w)
    · by_cases hw : w = v <;> simpa [Heap.setVolume, hw] using hfits.files _
  | file f =>
    obtain ⟨mask, hmask, hremove⟩ := Option.bind_eq_some_iff.mp hremove
    obtain ⟨fileTokens, hfiles, rfl⟩ := Option.map_eq_some_iff.mp hremove
    refine ⟨⟨?_, ?_, ?_, ?_⟩, fun hfits => ⟨?_, fun w => ?_⟩⟩
    · simpa [Heap.mask, Heap.setVolume, Heap.setFile] using TokenMask.Bumps.remove hmask
    · rintro (g | w) hne
      · have hg : g ≠ f := by simpa using hne
        simp [Heap.mask, Heap.setVolume, Heap.setFile, hg]
      · by_cases hw : w = L.vol f <;> simp [Heap.mask, Heap.setVolume, Heap.setFile, hw]
    · rintro g hg
      obtain rfl := Holder.file.inj hg
      simpa [Heap.setVolume] using TokenMask.Bumps.remove hfiles
    · intro w hw
      simp [Heap.setVolume, Heap.setFile, hw f rfl]
    · rintro (g | w)
      · by_cases hg : g = f
        · simpa [Heap.mask, Heap.setVolume, Heap.setFile, hg] using (hfits.mask (.file f)).remove hmask
        · simpa [Heap.mask, Heap.setVolume, Heap.setFile, hg] using hfits.mask (.file g)
      · by_cases hw : w = L.vol f
        · simpa [Heap.mask, Heap.setVolume, Heap.setFile, hw] using hfits.mask (.volume (L.vol f))
        · simpa [Heap.mask, Heap.setVolume, Heap.setFile, hw] using hfits.mask (.volume w)
    · by_cases hw : w = L.vol f
      · simpa [Heap.setVolume, hw] using (hfits.files (L.vol f)).remove hfiles
      · simpa [Heap.setVolume, Heap.setFile, hw] using hfits.files w

/-- The masks and the counts of `h'` are those of `h` with some more types for one holder. -/
structure Heap.Bumps (L : Layout φ ν) (h h' : Heap φ ν) (holder : Holder φ ν) (types : Types) : Prop
    extends h.MaskBumps L h' holder types where
  count : ∀ i, h'.count holder i = h.count holder i + if i ∈ types then 1 else 0
  otherCount : ∀ holder', holder' ≠ holder → ∀ i, h'.count holder' i = h.count holder' i

/-- What a change of the heap does to masks and counts. A token may lose types that
stay in the masks unless the change is exact. -/
inductive Heap.MaskStep (L : Layout φ ν) (exactly : Prop) (h h' : Heap φ ν) : Prop where
  | same (hmask : ∀ holder, h'.mask holder = h.mask holder)
    (hfiles : ∀ v, (h'.volume v).fileTokens = (h.volume v).fileTokens)
    (hless : ∀ holder i, h'.count holder i ≤ h.count holder i)
    (hcount : exactly → ∀ holder i, h'.count holder i = h.count holder i)
  | more {holder : Holder φ ν} {types : Types} (hfits : h.Fits → h'.Fits) (hbumps : h.Bumps L h' holder types)
  | fewer {holder : Holder φ ν} {types : Types} (hfits : h.Fits → h'.Fits) (hbumps : h'.Bumps L h holder types)

namespace Heap.Bumps

variable {h h' : Heap φ ν} {holder : Holder φ ν} {types : Types}

theorem covered_iff (hbumps : h.Bumps L h' holder types) : h'.Covered ↔ h.Covered := by
  refine forall_congr' fun holder' => forall_congr' fun i => ?_
  by_cases hh : holder' = holder
  · subst hh
    rw [hbumps.count, hbumps.self i]
    exact Nat.add_le_add_iff_right
  · rw [hbumps.otherCount holder' hh, hbumps.other holder' hh]

theorem counted_iff (hbumps : h.Bumps L h' holder types) : h'.Counted ↔ h.Counted := by
  refine forall_congr' fun holder' => forall_congr' fun i => ?_
  by_cases hh : holder' = holder
  · subst hh
    rw [hbumps.count, hbumps.self i]
    exact Nat.add_right_cancel_iff
  · rw [hbumps.otherCount holder' hh, hbumps.other holder' hh]

end Heap.Bumps

namespace Heap.MaskStep

variable {exactly : Prop} {h h' : Heap φ ν}

theorem masks (hstep : h.MaskStep L exactly h') (hmasks : Masks L h) : Masks L h' := by
  have hfits : h.Fits := ⟨hmasks.fits, hmasks.fileFits⟩
  cases hstep with
  | same hmask hfiles hless hcount =>
    refine ⟨fun holder => hmask holder ▸ hmasks.fits holder, fun v => hfiles v ▸ hmasks.fileFits v, fun v i => ?_⟩
    simp only [hfiles, hmask]
    exact hmasks.sum v i
  | more hfits' hbumps =>
    exact ⟨(hfits' hfits).mask, (hfits' hfits).files, fun v i => (hbumps.sum_iff v i).mpr (hmasks.sum v i)⟩
  | fewer hfits' hbumps =>
    exact ⟨(hfits' hfits).mask, (hfits' hfits).files, fun v i => (hbumps.sum_iff v i).mp (hmasks.sum v i)⟩

theorem covered (hstep : h.MaskStep L exactly h') (hcovered : h.Covered) : h'.Covered := by
  cases hstep with
  | same hmask hfiles hless hcount =>
    intro holder i
    rw [hmask]
    exact Nat.le_trans (hless holder i) (hcovered holder i)
  | more _ hbumps => exact hbumps.covered_iff.mpr hcovered
  | fewer _ hbumps => exact hbumps.covered_iff.mp hcovered

theorem counted (hstep : h.MaskStep L exactly h') (hexactly : exactly) (hcounted : h.Counted) : h'.Counted := by
  cases hstep with
  | same hmask hfiles hless hcount =>
    intro holder i
    rw [hmask, hcount hexactly]
    exact hcounted holder i
  | more _ hbumps => exact hbumps.counted_iff.mpr hcounted
  | fewer _ hbumps => exact hbumps.counted_iff.mp hcounted

end Heap.MaskStep

/-! What the primitives do to the masks -/

omit [DecidableEq φ] [DecidableEq ν] in
theorem Heap.count_congr {h h' : Heap φ ν} {holder : Holder φ ν} (hgranted : h'.granted holder = h.granted holder)
    (htypes : ∀ p ∈ h.granted holder, (h'.token p).types = (h.token p).types) (i : TokenType) :
    h'.count holder i = h.count holder i := by
  rw [count, count, hgranted]
  exact List.countP_congr fun p hp => by simp [htypes p hp]

omit [DecidableEq φ] [DecidableEq ν] in
theorem Heap.MaskStep.of_types {exactly : Prop} {h h' : Heap φ ν} (hmask : ∀ holder, h'.mask holder = h.mask holder)
    (hfiles : ∀ v, (h'.volume v).fileTokens = (h.volume v).fileTokens)
    (hgranted : ∀ holder, h'.granted holder = h.granted holder)
    (htypes : ∀ holder, ∀ p ∈ h.granted holder, (h'.token p).types = (h.token p).types) : h.MaskStep L exactly h' :=
  have hcount : ∀ holder i, h'.count holder i = h.count holder i := fun holder i =>
    count_congr (hgranted holder) (htypes holder) i
  .same hmask hfiles (fun holder i => Nat.le_of_eq (hcount holder i)) fun _ => hcount

@[simp] theorem Heap.setShelf_mask (h : Heap φ ν) (s : Shelf φ ν) (list : List Ptr) (holder : Holder φ ν) :
    (h.setShelf s list).mask holder = h.mask holder := by
  rcases s with (f | v) | v <;> rcases holder with f' | v'
  all_goals simp only [setShelf, setFile, setVolume, mask, Function.update_apply]
  · by_cases hf : f' = f <;> simp [hf]
  · by_cases hv : v' = v <;> simp [hv]
  · by_cases hv : v' = v <;> simp [hv]

@[simp] theorem Heap.setShelf_fileTokens (h : Heap φ ν) (s : Shelf φ ν) (list : List Ptr) (v : ν) :
    ((h.setShelf s list).volume v).fileTokens = (h.volume v).fileTokens := by
  rcases s with (f | w) | w
  · rfl
  · by_cases hv : v = w <;> simp [setShelf, setVolume, hv]
  · by_cases hv : v = w <;> simp [setShelf, setVolume, hv]

omit [DecidableEq φ] [DecidableEq ν] in
theorem Heap.mask_eq {h h' : Heap φ ν} (hfile : h'.file = h.file) (hvolume : h'.volume = h.volume)
    (holder : Holder φ ν) : h'.mask holder = h.mask holder := by
  cases holder <;> simp [mask, hfile, hvolume]

section

variable [DecidableEq τ] {t : τ} {others : τ → List Ptr} {h h' : Heap φ ν} {p : Ptr} {l : List Ptr}

omit [DecidableEq φ] [DecidableEq ν] in
theorem Sound.ne_of_granted (hs : Sound h (Function.update others t (p :: l))) {holder : Holder φ ν} {q : Ptr}
    (hq : q ∈ h.granted holder) : q ≠ p := fun heq =>
  hs.not_granted (mem_local List.mem_cons_self) (by simp) holder (heq ▸ hq)

theorem Sound.maskStep_grant {exactly : Prop} {tok : Token φ ν} (hs : Sound h (Function.update others t (p :: l)))
    (hgrant : tkm_GrantHolderToken L (h.setToken p tok) p = some h') : h.MaskStep L exactly h' := by
  obtain ⟨holder, hholder, hgrants⟩ := tkm_GrantHolderToken_spec hgrant
  obtain ⟨hbumps, hfits⟩ := tkm_GrantHolderToken_masks hholder hgrant
  have hkept : ∀ holder', ∀ q ∈ h.granted holder', (h'.token q).types = (h.token q).types := fun holder' q hq => by
    rw [hgrants.token, Heap.setToken_token_of_ne _ _ (hs.ne_of_granted hq)]
  have hfits' : h.Fits → h'.Fits := fun hf =>
    hfits ⟨fun holder => Heap.mask_eq rfl rfl holder ▸ hf.mask holder, hf.files⟩
  refine @Heap.MaskStep.more _ _ _ _ _ _ holder tok.types hfits' ⟨⟨?_, ?_, ?_, ?_⟩, fun i => ?_, fun holder' hne i => ?_⟩
  · have hmask : ∀ holder, (h.setToken p tok).mask holder = h.mask holder := Heap.mask_eq rfl rfl
    simpa [hmask] using hbumps.self
  · exact fun holder' hne => hbumps.other holder' hne |>.trans (Heap.mask_eq rfl rfl holder')
  · intro f hf
    have hfiles := hbumps.files f hf
    rw [Heap.setToken_token] at hfiles
    exact hfiles
  · exact hbumps.otherFiles
  · rw [Heap.count, hgrants.granted, if_pos rfl, Heap.setToken_granted, List.countP_cons, hgrants.token,
      Heap.setToken_token]
    rw [show (h.granted holder).countP (fun q => i ∈ ((h.setToken p tok).token q).types) = h.count holder i from
      List.countP_congr fun q hq => by rw [← hgrants.token, hkept holder q hq]]
    simp
  · refine Heap.count_congr ?_ (hkept holder') i
    rw [hgrants.granted, if_neg hne, Heap.setToken_granted]

omit [DecidableEq τ] in
theorem Sound.maskStep_drop {exactly : Prop} {locals : τ → List Ptr} (hs : Sound h locals) {holder : Holder φ ν}
    {types : Types} (hp : p ∈ h.granted holder) (hdrop : dropTypes L h p types = some h') :
    h.MaskStep L exactly h' := by
  obtain ⟨hsame, htoken⟩ := dropTypes_spec hdrop
  have hkept : ∀ q, q ≠ p → (h'.token q).types = (h.token q).types := fun q hq => by
    rw [htoken, Heap.setToken_token_of_ne _ _ hq]
  rw [dropTypes] at hdrop
  dsimp only at hdrop
  split at hdrop
  · next hnone =>
    obtain rfl := Option.some.inj hdrop
    refine .of_types (Heap.mask_eq rfl rfl) (fun _ => rfl) (by simp) fun holder' q hq => ?_
    by_cases hqp : q = p
    · subst hqp
      simpa using Finset.sdiff_eq_self_of_disjoint (Finset.disjoint_iff_inter_eq_empty.mpr hnone)
    · exact hkept q hqp
  · obtain ⟨-, hdrop⟩ := Option.ite_none_left_eq_some.mp hdrop
    obtain ⟨h₁, hremove, rfl⟩ := Option.map_eq_some_iff.mp hdrop
    obtain ⟨hbumps, hfits⟩ := TKM_REMOVE_FROM_MASK_masks (hs.holder holder p hp) hremove
    set h' := h₁.setToken p { h.token p with types := (h.token p).types \ types
                                             refused := (h.token p).refused \ types
                                             granting := false }
    have hmask : ∀ holder, h'.mask holder = h₁.mask holder := Heap.mask_eq rfl rfl
    refine .fewer
      (fun hf => ⟨fun holder' => hmask holder' ▸ (hfits hf).mask holder', (hfits hf).files⟩)
      ⟨⟨?_, ?_, hbumps.files, hbumps.otherFiles⟩, fun i => ?_, fun holder' hne i => ?_⟩
    · rw [hmask]
      exact hbumps.self
    · intro holder' hne
      rw [hmask]
      exact hbumps.other holder' hne
    · have hperm : (h.granted holder).Perm (p :: (h.granted holder).erase p) := List.perm_cons_erase hp
      have hrest : ((h.granted holder).erase p).countP (fun q => i ∈ (h'.token q).types) =
          ((h.granted holder).erase p).countP (fun q => i ∈ (h.token q).types) :=
        List.countP_congr fun q hq => by
          rw [hkept q fun h => List.Nodup.not_mem_erase (hs.apart.nodup (.granted holder)) (h ▸ hq)]
      rw [Heap.count, Heap.count, hsame.granted, hperm.countP_eq, hperm.countP_eq, List.countP_cons,
        List.countP_cons, hrest]
      by_cases hi : i ∈ (h.token p).types <;> by_cases hi' : i ∈ types <;> simp [h', hi, hi']
    · refine (Heap.count_congr (hsame.granted holder') (fun q hq => hkept q fun heq => ?_) i).symm
      exact hne (Place.granted.inj (hs.apart.unique (x := .granted holder') (y := .granted holder) (heq ▸ hq) hp))

omit [DecidableEq τ] in
theorem tkm_ReturnHolderToken_masks (hreturn : tkm_ReturnHolderToken h p = some h') :
    (∀ holder, h'.mask holder = h.mask holder) ∧ ∀ v, (h'.volume v).fileTokens = (h.volume v).fileTokens := by
  rw [tkm_ReturnHolderToken] at hreturn
  split at hreturn
  · simp at hreturn
  · next v _ =>
    split at hreturn
    · obtain rfl := Option.some.inj hreturn
      refine ⟨fun holder => ?_, fun w => ?_⟩
      · rcases holder with f | w
        · rfl
        · by_cases hw : w = v <;> simp [Heap.mask, Heap.setVolume, hw]
      · by_cases hw : w = v <;> simp [Heap.setVolume, hw]
    · simp at hreturn
  · next f _ =>
    split at hreturn
    · obtain rfl := Option.some.inj hreturn
      refine ⟨fun holder => ?_, fun w => rfl⟩
      rcases holder with g | w
      · by_cases hg : g = f <;> simp [Heap.mask, Heap.setFile, hg]
      · rfl
    · simp at hreturn

theorem Prim.maskStep {k : Kind} {a b : Heap φ ν × List Ptr} (hprim : Prim L k a b)
    (hs : Sound a.1 (Function.update others t a.2)) : a.1.MaskStep L (k ≠ .mixed) b.1 := by
  cases hprim with
  | alloc h l =>
    refine .of_types (Heap.mask_eq rfl rfl) (fun _ => rfl) (fun holder => by cases holder <;> rfl) fun holder q hq => ?_
    have hne : q ≠ h.allocated := Nat.ne_of_lt (hs.below (.granted holder) q hq)
    exact congrArg Token.types (Heap.setToken_token_of_ne _ _ hne)
  | take l htake =>
    rename_i h h' p
    obtain ⟨rest, hfree, rfl⟩ := tkm_GetFreeToken_spec htake
    refine .of_types (Heap.mask_eq rfl rfl) (fun _ => rfl) (fun holder => by cases holder <;> rfl) fun holder q hq => ?_
    have hmem : p ∈ contents h (Function.update others t l) .free := by simp [contents, hfree]
    have hne : q ≠ p := fun heq => hs.not_granted hmem (by simp) holder (heq ▸ hq)
    exact congrArg Token.types (Heap.setToken_token_of_ne _ _ hne)
  | put h p l =>
    refine .of_types (Heap.mask_eq rfl rfl) (fun _ => rfl) (by simp) fun holder q hq => ?_
    exact congrArg Token.types (Heap.setToken_token_of_ne _ _ (hs.ne_of_granted hq))
  | fill h p l tok =>
    refine .of_types (Heap.mask_eq rfl rfl) (fun _ => rfl) (by simp) fun holder q hq => ?_
    exact congrArg Token.types (Heap.setToken_token_of_ne _ _ (hs.ne_of_granted hq))
  | slice l _ _ _ _ _ _ hgrant => exact hs.maskStep_grant hgrant
  | grant l _ _ _ hgrant => exact hs.maskStep_grant hgrant
  | drop l hp hdrop => exact hs.maskStep_drop hp hdrop
  | recycle l htypes hrefcount hreturn =>
    rename_i h h' p
    obtain ⟨hmask, hfiles⟩ := tkm_ReturnHolderToken_masks hreturn
    obtain ⟨holder, hholder, hreturns⟩ := tkm_ReturnHolderToken_spec hreturn
    have hkept : ∀ q, ((tkm_PutTokenInFreeList h' p).token q).types = (h.token q).types := fun q => by
      by_cases hqp : q = p
      · subst hqp
        simp [tkm_PutTokenInFreeList, hreturns.token]
      · rw [tkm_PutTokenInFreeList]
        exact congrArg Token.types ((Heap.setToken_token_of_ne _ _ hqp).trans (congrFun hreturns.token q))
    have hcount : ∀ holder' i, (tkm_PutTokenInFreeList h' p).count holder' i = h.count holder' i := fun holder' i => by
      simp only [Heap.count, hkept, tkm_PutTokenInFreeList_granted, hreturns.granted]
      split
      · next heq =>
        rw [heq, (List.perm_cons_erase hreturns.mem).countP_eq, List.countP_cons, htypes]
        simp
      · rfl
    exact .same (fun holder' => (Heap.mask_eq rfl rfl holder').trans (hmask holder')) hfiles
      (fun holder' i => Nat.le_of_eq (hcount holder' i)) fun _ => hcount
  | touch h l p htouched htypes =>
    refine .of_types (Heap.mask_eq rfl rfl) (fun _ => rfl) (by simp) fun holder q hq => ?_
    by_cases hqp : q = p
    · subst hqp
      simpa using htypes (hs.named (.granted holder) (by simp) q hq)
    · exact congrArg Token.types (Heap.setToken_token_of_ne _ _ hqp)
  | adjust h l hp htypes =>
    rename_i p holder types
    refine .same (Heap.mask_eq rfl rfl) (fun _ => rfl) (fun holder' i => ?_) fun hk => absurd rfl hk
    rw [Heap.count, Heap.count, Heap.setToken_granted]
    refine List.countP_mono_left fun q hq hi => ?_
    by_cases hqp : q = p
    · subst hqp
      simp only [Heap.setToken_token, decide_eq_true_eq] at hi ⊢
      exact htypes hi
    · rwa [Heap.setToken_token_of_ne _ _ hqp] at hi
  | host h l f host =>
    refine .of_types (fun holder => ?_) (fun _ => rfl) (fun holder => ?_) fun _ _ _ => rfl
    · rcases holder with g | v
      · by_cases hg : g = f <;> simp [Heap.mask, Heap.setFile, hg]
      · rfl
    · rcases holder with g | v
      · by_cases hg : g = f <;> simp [Heap.granted, Heap.setFile, hg]
      · rfl
  | shelve h s p l => exact .of_types (by simp) (by simp) (by simp) (by simp)
  | unqueue h holder l hp => exact .of_types (by simp) (by simp) (by simp) (by simp)
  | unbeing h v l hp => exact .of_types (by simp) (by simp) (by simp) (by simp)
  | perm h hperm => exact .of_types (fun _ => rfl) (fun _ => rfl) (fun _ => rfl) fun _ _ _ => rfl
  | forget h p l => exact .of_types (fun _ => rfl) (fun _ => rfl) (fun _ => rfl) fun _ _ _ => rfl

/-! The masks of every run -/

theorem Chain.masks {ok : Kind → Prop} {a b : Heap φ ν × List Ptr} (hchain : Chain L ok a b)
    (hs : Sound a.1 (Function.update others t a.2)) (hmasks : Masks L a.1 ∧ a.1.Covered) :
    Masks L b.1 ∧ b.1.Covered := by
  induction hchain with
  | refl => exact hmasks
  | tail hchain hprim ih =>
    obtain ⟨k, _, hprim⟩ := hprim
    have hstep := hprim.maskStep (Chain.sound hchain hs)
    exact ⟨hstep.masks ih.1, hstep.covered ih.2⟩

theorem Chain.counted {ok : Kind → Prop} {a b : Heap φ ν × List Ptr} (hchain : Chain L ok a b) (hok : ¬ok .mixed)
    (hs : Sound a.1 (Function.update others t a.2)) (hcounted : a.1.Counted) : b.1.Counted := by
  induction hchain with
  | refl => exact hcounted
  | tail hchain hprim ih =>
    obtain ⟨k, hk, hprim⟩ := hprim
    exact (hprim.maskStep (Chain.sound hchain hs)).counted (fun hmixed => hok (hmixed ▸ hk)) ih

end

omit [DecidableEq φ] [DecidableEq ν] in
theorem Masks.init (lastTokenId : ℕ) :
    Masks L (Heap.init lastTokenId) ∧ (Heap.init lastTokenId : Heap φ ν).Covered ∧ (Heap.init lastTokenId : Heap φ ν).Counted := by
  have hmask : ∀ holder : Holder φ ν, (Heap.init lastTokenId).mask holder = TokenMask.zero := fun holder => by
    cases holder <;> rfl
  have hcount : ∀ (holder : Holder φ ν) i, (Heap.init lastTokenId).count holder i = 0 := fun holder i => by
    cases holder <;> rfl
  refine ⟨⟨fun holder => ?_, fun v i => ?_, fun v i => ?_⟩, fun holder i => ?_, fun holder i => ?_⟩
  · rw [hmask]
    exact fun i => by simp [TokenMask.zero]
  · simp [Heap.init, TokenMask.zero]
  · simp only [hmask]
    simp [Heap.init, TokenMask.zero]
  · simp [hcount]
  · rw [hmask, hcount]
    rfl

variable [DecidableEq τ] {s s' : State φ ν τ}

omit [DecidableEq φ] [DecidableEq ν] in
theorem State.Good.locals_update (hgood : s.Good) (t : τ) : Sound s.heap (Function.update s.locals t (s.locals t)) := by
  rw [Function.update_eq_self]
  exact hgood.sound

theorem tokenManager_masks (hreach : (tokenManager L τ).Reachable s) : Masks L s.heap ∧ s.heap.Covered := by
  have hinv : s.Good ∧ Masks L s.heap ∧ s.heap.Covered := by
    refine hreach.invariant (P := fun s => s.Good ∧ Masks L s.heap ∧ s.heap.Covered) (fun s hinit => ?_)
      fun s i s' ⟨hgood, hmasks⟩ hstep => ?_
    · obtain ⟨⟨lastTokenId, hheap⟩, hidle⟩ := hinit
      obtain ⟨hmasks, hcovered, _⟩ := Masks.init (L := L) lastTokenId
      exact ⟨.init hheap hidle, hheap ▸ hmasks, hheap ▸ hcovered⟩
    · have hnext : s.Next L (fun _ => True) i.1 s' :=
        hgood.next trivial trivial trivial (fun _ _ => trivial) (fun _ => trivial) (fun _ => trivial) hstep
      exact ⟨hnext.good, hnext.chain.masks (hgood.locals_update i.1) hmasks⟩
  exact hinv.2

/-- A step in which a client accepts some, but not all types of a slice. -/
def State.mixes (s : State φ ν τ) (i : τ × Action φ ν) : Prop := (s.thread i.1).mixes s.heap i.2

instance (s : State φ ν τ) (i : τ × Action φ ν) : Decidable (s.mixes i) :=
  inferInstanceAs (Decidable ((s.thread i.1).mixes s.heap i.2))

/-- The token manager as long as its clients accept slices as a whole. -/
def unmixed (L : Layout φ ν) (τ : Type) [DecidableEq τ] : System (State φ ν τ) (τ × Action φ ν) :=
  (tokenManager L τ).restrict fun s i => ¬s.mixes i

/-- As long as clients accept slices as a whole, the masks are exact. -/
theorem masks_exact (hreach : (unmixed L τ).Reachable s) : MasksExact L s.heap := by
  have hinv : s.Good ∧ s.heap.Counted := by
    refine hreach.invariant (P := fun s => s.Good ∧ s.heap.Counted) (fun s hinit => ?_)
      fun s i s' ⟨hgood, hcounted⟩ hstep => ?_
    · obtain ⟨⟨lastTokenId, hheap⟩, hidle⟩ := hinit
      exact ⟨.init hheap hidle, hheap ▸ (Masks.init (L := L) lastTokenId).2.2⟩
    · obtain ⟨hmixed, hstep⟩ := System.restrict_step hstep
      have hnext : s.Next L (· ≠ .mixed) i.1 s' :=
        hgood.next (by simp) (by simp) (by simp) (fun _ _ => by simp) (fun h => absurd h hmixed) (fun _ => by simp) hstep
      exact ⟨hnext.good, hnext.chain.counted (by simp) (hgood.locals_update i.1) hcounted⟩
  exact (tokenManager_masks hreach.of_restrict).1.exact hinv.2

open TokenType in
/-- The first host's token is revoked for a part of its range, and the host accepts
the same types of each of the two slices. -/
def slicesAccepted (accepted : Types) : List (Unit × Action Unit Unit) :=
  [.moreTokens 4, .tkm_GetToken (.file ()) {TKM_DATA_WRITE, TKM_LOCK_WRITE} ⟨0, 100⟩ 1 false false false, .run,
    .tkm_GetToken (.file ()) {TKM_DATA_WRITE, TKM_LOCK_WRITE} ⟨50, 60⟩ 2 false false false, .run,
    .preProcess false false, .preProcess false false, .run, .run, .answer 0 ⟨false, ∅, accepted, accepted⟩, .accept 0,
    .accept 0].map (Prod.mk ())

open TokenType in
theorem masks_exact_slicesAccepted :
    ∃ s : State Unit Unit Unit, (s.heap.file ()).granted.list.length = 2 ∧ MasksExact oneFile s.heap := by
  obtain ⟨s, hreach, hs⟩ := (unmixed oneFile Unit).exists_reachable_of_exec
    (slicesAccepted {TKM_DATA_WRITE, TKM_LOCK_WRITE}) (s := fresh)
    (P := fun s => (s.heap.file ()).granted.list.length == 2) ⟨⟨0, rfl⟩, fun _ => rfl⟩ (by decide +kernel)
  exact ⟨s, beq_iff_eq.mp hs, masks_exact hreach⟩

open TokenType in
/-- A client that accepts one of the two types leaves the other one in the masks. -/
theorem masks_drift :
    ∃ s : State Unit Unit Unit, (tokenManager oneFile Unit).Reachable s ∧ ¬MasksExact oneFile s.heap := by
  obtain ⟨s, hreach, hs⟩ := (tokenManager oneFile Unit).exists_reachable_of_exec (slicesAccepted {TKM_DATA_WRITE})
    (s := fresh) (P := fun s => (s.heap.mask (.file ())).counter TKM_LOCK_WRITE != s.heap.count (.file ()) TKM_LOCK_WRITE)
    ⟨⟨0, rfl⟩, fun _ => rfl⟩ (by decide +kernel)
  exact ⟨s, hreach, fun hexact => bne_iff_ne.mp hs (hexact.counter (.file ()) TKM_LOCK_WRITE)⟩

section

omit [DecidableEq φ] [DecidableEq ν] [DecidableEq τ]

variable {h : Heap φ ν} {requested : Token φ ν}

theorem searchLoop_tokens (room : ℕ) (list : List Ptr) :
    (searchLoop h requested room list).1.map ConflictElem.token =
      ((list.filter fun p => (tkm_RevokeReqd (h.token p) requested).isSome).take room).map some := by
  induction list generalizing room with
  | nil => cases room <;> rfl
  | cons p rest ih =>
    cases room with
    | zero => rfl
    | succ room =>
      rw [searchLoop]
      cases hreqd : tkm_RevokeReqd (h.token p) requested with
      | none => simp [hreqd, ih]
      | some found => simp [hreqd, ih]

theorem tkm_RevokeReqd_none {issued : Token φ ν} (hnone : ∀ i ∈ issued.types, i ∉ TKM_TYPE_CONFLICTS requested.types) :
    tkm_RevokeReqd issued requested = none := by
  rw [tkm_RevokeReqd]
  split
  · rfl
  · extract_lets overlap requestedTypes totalConflicts
    refine if_pos (Finset.eq_empty_of_forall_notMem fun i hi => ?_)
    obtain ⟨hissued, hconflict⟩ := Finset.mem_inter.mp hi
    obtain ⟨j, hj, hij⟩ := mem_conflicts.mp hconflict
    refine hnone i hissued (mem_conflicts.mpr ⟨j, ?_, hij⟩)
    -- the types that count are all of those requested, or those without a range
    cases hoverlap : overlap with
    | true => simpa [requestedTypes, hoverlap] using hj
    | false =>
      simp only [requestedTypes, hoverlap, Bool.false_eq_true, if_false] at hj
      exact (mem_withoutRange.mp hj).1

theorem Masks.mem_typeSum (hmasks : Masks L h) (hcovered : h.Covered) {holder : Holder φ ν} {p : Ptr}
    (hp : p ∈ h.granted holder) {i : TokenType} (hi : i ∈ (h.token p).types) : i ∈ (h.mask holder).typeSum := by
  have hcount : 0 < h.count holder i := List.countP_pos_iff.mpr ⟨p, hp, by simpa using hi⟩
  exact (hmasks.fits holder i).mpr (hcount.trans_le (hcovered holder i))

theorem Masks.mem_fileTypeSum (hmasks : Masks L h) (hcovered : h.Covered) {v : ν} {f : φ} (hf : f ∈ L.files v) {p : Ptr}
    (hp : p ∈ h.granted (.file f)) {i : TokenType} (hi : i ∈ (h.token p).types) : i ∈ (h.volume v).fileTokens.typeSum := by
  have hcounter := (hmasks.fits (.file f) i).mp (hmasks.mem_typeSum hcovered hp hi)
  rw [hmasks.fileFits, hmasks.sum]
  exact List.sum_pos_iff_exists_pos_nat.mpr ⟨_, List.mem_map.mpr ⟨f, hf, rfl⟩, hcounter⟩

end

/-- Whatever clients accept and refuse, the tests by the masks hide no conflict: a search has the first forty conflicting tokens
of its list, and a volume whose mask shows no conflict has no file with a conflicting token. -/
theorem masks_hide_no_conflict (L : Layout φ ν) (s : State φ ν τ) (hreach : (tokenManager L τ).Reachable s) (requested : Token φ ν) :
    (∀ holder, (tkm_ConflictingTokens s.heap ⟨s.heap.mask holder, s.heap.granted holder⟩ requested).1.map ConflictElem.token =
      (((s.heap.granted holder).filter fun p => (tkm_RevokeReqd (s.heap.token p) requested).isSome).take TKM_MAX_CONFLICTS).map some) ∧
    ∀ v, (s.heap.volume v).fileTokens.typeSum ∩ TKM_TYPE_CONFLICTS requested.types = ∅ →
      ∀ f ∈ L.files v, ∀ p ∈ s.heap.granted (.file f), tkm_RevokeReqd (s.heap.token p) requested = none := by
  obtain ⟨hmasks, hcovered⟩ := tokenManager_masks hreach
  refine ⟨fun holder => ?_, fun v hempty f hf p hp => tkm_RevokeReqd_none fun i hi hconflict => ?_⟩
  · rw [tkm_ConflictingTokens]
    split
    · next hempty =>
      have hnone : ∀ p ∈ s.heap.granted holder, tkm_RevokeReqd (s.heap.token p) requested = none := fun p hp =>
        tkm_RevokeReqd_none fun i hi hconflict => by
          obtain ⟨j, hj, hij⟩ := mem_conflicts.mp hconflict
          have hsum := hmasks.mem_typeSum hcovered hp hi
          exact Finset.eq_empty_iff_forall_notMem.mp hempty j
            (Finset.mem_inter.mpr ⟨mem_conflicts.mpr ⟨i, hsum, ctable_comm j i ▸ hij⟩, hj⟩)
      rw [List.filter_eq_nil_iff.mpr fun p hp => by simp [hnone p hp]]
      rfl
    · exact searchLoop_tokens _ _
  · exact Finset.eq_empty_iff_forall_notMem.mp hempty i
      (Finset.mem_inter.mpr ⟨hmasks.mem_fileTypeSum hcovered hf hp hi, hconflict⟩)

open TokenType in
theorem masks_hide_no_conflict_drifted :
    ∃ s : State Unit Unit Unit, (s.heap.file ()).granted.list.length = 2 ∧
      (tkm_ConflictingTokens s.heap ⟨s.heap.mask (.file ()), s.heap.granted (.file ())⟩
        ⟨9, ⟨0, 10⟩, some (.file ()), {TKM_DATA_READ}, ∅, 2, false, 0⟩).1.map ConflictElem.token =
      (((s.heap.granted (.file ())).filter fun p => (tkm_RevokeReqd (s.heap.token p)
        ⟨9, ⟨0, 10⟩, some (.file ()), {TKM_DATA_READ}, ∅, 2, false, 0⟩).isSome).take TKM_MAX_CONFLICTS).map some := by
  obtain ⟨s, hreach, hs⟩ := (tokenManager oneFile Unit).exists_reachable_of_exec (slicesAccepted {TKM_DATA_WRITE}) (s := fresh)
    (P := fun s => (s.heap.file ()).granted.list.length == 2) ⟨⟨0, rfl⟩, fun _ => rfl⟩ (by decide +kernel)
  exact ⟨s, beq_iff_eq.mp hs, (masks_hide_no_conflict oneFile s hreach _).1 (.file ())⟩

end dce.tkm
