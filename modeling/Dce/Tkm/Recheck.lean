import Dce.Tkm.System

namespace dce.tkm

open TokenType Code

variable {φ ν : Type} {h : Heap φ ν} {q : ConflictQ} {elem : ConflictElem}

/-- An element that was not removed and whose token still has a type that was to be revoked. -/
def ConflictElem.Refused (elem : ConflictElem) (h : Heap φ ν) : Prop :=
  ∃ p, elem.token = some p ∧ elem.revoke ∩ (h.token p).types ≠ ∅

def StillRefused (h : Heap φ ν) (q : ConflictQ) : Prop := ∃ elem ∈ q, elem.Refused h

/-- The elements up to the first one that is still refused, or all of them, were not removed. -/
def FirstKept (h : Heap φ ν) : ConflictQ → Prop
  | [] => True
  | elem :: q => elem.token.isSome = true ∧ (¬elem.Refused h → FirstKept h q)

theorem stillRefused_iff : stillRefused h q = true ↔ StillRefused h q := by
  rw [stillRefused, List.any_eq_true]
  refine exists_congr fun elem => and_congr_right fun _ => ?_
  cases htoken : elem.token <;> simp [ConflictElem.Refused, htoken]

instance (h : Heap φ ν) (q : ConflictQ) : Decidable (StillRefused h q) := decidable_of_iff _ stillRefused_iff

theorem stillRefusedVol_ne_none_iff : stillRefusedVol h q ≠ none ↔ FirstKept h q := by
  induction q with
  | nil => simp [stillRefusedVol, FirstKept]
  | cons elem q ih =>
    rw [stillRefusedVol, FirstKept]
    cases htoken : elem.token with
    | none => simp
    | some p =>
      have hrefused : elem.Refused h ↔ elem.revoke ∩ (h.token p).types ≠ ∅ := by
        simp [ConflictElem.Refused, htoken]
      rw [hrefused]
      by_cases hmeet : elem.revoke ∩ (h.token p).types ≠ ∅
      · simp [hmeet]
      · simpa [hmeet] using ih

theorem stillRefusedVol_some {refused : Bool} (hfound : stillRefusedVol h q = some refused) :
    refused = true ↔ StillRefused h q := by
  induction q with
  | nil =>
    obtain rfl := Option.some.inj hfound
    simp [StillRefused]
  | cons elem q ih =>
    rw [stillRefusedVol] at hfound
    cases htoken : elem.token with
    | none => simp [htoken] at hfound
    | some p =>
      simp only [htoken] at hfound
      have hrefused : elem.Refused h ↔ elem.revoke ∩ (h.token p).types ≠ ∅ := by
        simp [ConflictElem.Refused, htoken]
      by_cases hmeet : elem.revoke ∩ (h.token p).types ≠ ∅
      · rw [if_pos hmeet] at hfound
        obtain rfl := Option.some.inj hfound
        exact iff_of_true rfl ⟨elem, List.mem_cons_self, hrefused.mpr hmeet⟩
      · rw [if_neg hmeet] at hfound
        rw [ih hfound]
        constructor
        · rintro ⟨elem', hmem, helem⟩
          exact ⟨elem', List.mem_cons_of_mem _ hmem, helem⟩
        · rintro ⟨elem', hmem, helem⟩
          rcases List.mem_cons.mp hmem with rfl | hmem
          · exact absurd (hrefused.mp helem) hmeet
          · exact ⟨elem', hmem, helem⟩

variable [DecidableEq φ] [DecidableEq ν] (L : Layout φ ν)

/-- What both functions are to do after a refused revocation for a request of a file token that may be queued: no removed
element is looked at, the conflict is the answer just when an element is still refused, and else the search starts again. -/
structure RecheckRight (h : Heap φ ν) (q : ConflictQ) : Prop where
  file : ∀ r c, r.flags.queueRequest = true →
    fileRevoked L h r c q TKM_ERROR_TOKENCONFLICT =
      if StillRefused h q then (tkm_CleanConflictQ L h q).bind fun h => fixFileFailed L h r c TKM_ERROR_TOKENCONFLICT
      else (tkm_CleanConflictQ L h q).map fun h => (h, .fileLoop r c [])
  kept : stillRefusedVol h q ≠ none
  vol : ∀ r f localFileCount otherHostFileMask, r.flags.queueRequest = true →
    volRevoked L h r (.getFileToken f localFileCount otherHostFileMask) q TKM_ERROR_TOKENCONFLICT =
      if StillRefused h q then
        (tkm_DeleteConflictQ L h q).bind fun h =>
          fixVolFailed L h r (.getFileToken f localFileCount otherHostFileMask) TKM_ERROR_TOKENCONFLICT
      else (tkm_DeleteConflictQ L h q).map fun h =>
        (h, .volLoop r (.getFileToken f localFileCount otherHostFileMask))

/-- The two copies of the re-check are right just when no removed element stands before the first refused one. -/
theorem recheck_right_iff (h : Heap φ ν) (q : ConflictQ) : RecheckRight L h q ↔ FirstKept h q := by
  refine ⟨fun hright => stillRefusedVol_ne_none_iff.mp hright.kept, fun hkept => ?_⟩
  have hnot := stillRefusedVol_ne_none_iff.mpr hkept
  obtain ⟨refused, hfound⟩ := Option.ne_none_iff_exists'.mp hnot
  refine ⟨fun r c hqueue => ?_, hnot, fun r f localFileCount otherHostFileMask hqueue => ?_⟩
  · rw [fileRevoked, if_neg (by decide)]
    by_cases hstill : StillRefused h q
    · rw [if_pos hstill, if_neg (by simp [stillRefused_iff.mpr hstill])]
    · rw [if_neg hstill, if_pos ⟨rfl, hqueue, mt stillRefused_iff.mp hstill⟩]
  · simp only [volRevoked, hqueue, hfound, and_self, if_true, Option.bind_some]
    rw [if_neg (by decide)]
    exact if_congr (stillRefusedVol_some hfound) rfl rfl

def twoTokens : Heap Unit Unit where
  token p := { Token.blank p with types := {TKM_STATUS_WRITE}, host := p, refcount := 1 }
  allocated := 2
  lastTokenId := 2
  freeTokens := []
  file _ := ⟨⟨TokenMask.zero, []⟩, [], none, 0⟩
  volume _ := ⟨⟨TokenMask.zero, [0, 1]⟩, [], [], TokenMask.zero, 2⟩

/-- The first of two tokens is given up and the second one is refused. -/
theorem removed_dereferenced :
    ¬RecheckRight ⟨fun _ => (), fun _ => [()], fun _ => false, by decide, by decide⟩ twoTokens
      [⟨none, {TKM_STATUS_WRITE}, ∅, none, none⟩, ⟨some 1, {TKM_STATUS_WRITE}, ∅, none, none⟩] :=
  fun hright => hright.kept rfl

end dce.tkm
