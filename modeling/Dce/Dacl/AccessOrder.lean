import Dce.Dacl.Categories

open lib dce.sec

namespace dce.dacl

variable {source : epi_source_id_t} {acl : dacl_t} {subject : Subject} {do_dlg : Bool}

/-- The places where the delegates' ladder goes by the documented order: no search through groups that stops too early, no
entry for delegates of the default realm, and not both kinds of entry for a foreign realm, or for any other. -/
def Orderly (source : epi_source_id_t) (acl : dacl_t) (subject : Subject) : Prop :=
  (userObjCategory source acl subject).isSome = true ∨ (userCategory source acl subject).isSome = true ∨
    Searched source acl (isGroupObj source acl subject) (allGroups acl subject) ∧
      ((groupCategory source acl subject).isSome = true ∨
        (realmIsDefault acl subject = true → simpleEntry acl .otherobj_delegate = none) ∧
          ((otherObjCategory acl subject).isSome = true ∨
            (realmEntry source acl subject .other = none ∨ realmEntry source acl subject .for_other_delegate = none) ∧
              ((foreignOtherCategory source acl subject).isSome = true ∨ simpleEntry acl .anyother = none ∨
                simpleEntry acl .anyother_delegate = none)))

theorem behindMask_eq {perms : List dacl_permset_t} (useMaskObj : Bool) (hne : perms ≠ []) :
    behindMask acl subject useMaskObj perms =
      some (DACL_ACCESS_MASK_ACCESS (maskObjPermMask acl subject) (join perms) useMaskObj) := by
  cases perms with
  | nil => exact absurd rfl hne
  | cons p perms => rfl

theorem owner_iff : (Epi_PrinId_Cmp source subject.pac.principal.uuid subject.userObj = 0 ∧ realmIsDefault acl subject = true ∧
      (simpleEntry acl .userobj).isSome = true) ↔ (userObjCategory source acl subject).isSome = true := by
  rw [userObjCategory, isUserObj, simplePerms]
  cases realmIsDefault acl subject <;> cases simpleEntry acl .userobj <;>
  by_cases howner : Epi_PrinId_Cmp source subject.pac.principal.uuid subject.userObj = 0 <;>
  simp [howner, behindMask, union]

theorem entryMatches_owner (do_dlg : Bool) (howner : (userObjCategory source acl subject).isSome = true) :
    entryMatches source acl subject do_dlg = ⟨.none, simpleEntry acl .userobj, none, none, none, none⟩ ∧
      (simpleEntry acl .userobj).isSome = true := by
  have htest := owner_iff.mpr howner
  rw [entryMatches, if_pos htest]
  exact ⟨rfl, htest.2.2⟩

theorem delegateAccess_owner (do_dlg : Bool) (howner : (userObjCategory source acl subject).isSome = true) :
    some (delegateAccess acl subject (entryMatches source acl subject do_dlg)).1 = userObjCategory source acl subject := by
  have htest := owner_iff.mpr howner
  rw [(entryMatches_owner do_dlg howner).1]
  obtain ⟨entry, hentry⟩ := Option.isSome_iff_exists.mp htest.2.2
  have his : isUserObj source acl subject = true := by simp [isUserObj, htest.1, htest.2.1]
  simp [delegateAccess, hentry, userObjCategory, his, simplePerms, behindMask, union, substituted]

theorem not_owner (howner : userObjCategory source acl subject = none) :
    ¬ (Epi_PrinId_Cmp source subject.pac.principal.uuid subject.userObj = 0 ∧ realmIsDefault acl subject = true ∧
      (simpleEntry acl .userobj).isSome = true) :=
  mt owner_iff.mp (by simp [howner])

theorem userCategory_isSome_iff : (userCategory source acl subject).isSome = true ↔
    ¬ (userEntry source acl subject .user = none ∧ userEntry source acl subject .user_delegate = none) := by
  rw [userCategory]
  cases userEntry source acl subject .user <;> cases userEntry source acl subject .user_delegate <;>
  simp [permsOf, behindMask, union]

section

variable (howner : userObjCategory source acl subject = none)

include howner

theorem entryMatches_user (huser : (userCategory source acl subject).isSome = true) :
    entryMatches source acl subject true =
      ⟨.none, none, userEntry source acl subject .user, userEntry source acl subject .user_delegate, none, none⟩ := by
  rw [entryMatches, if_neg (not_owner howner)]
  refine if_neg ?_
  simpa [userEntry, realmIdOf] using userCategory_isSome_iff.mp huser

theorem delegateAccess_user (huser : (userCategory source acl subject).isSome = true) :
    some (delegateAccess acl subject (entryMatches source acl subject true)).1 = userCategory source acl subject := by
  have hfound := userCategory_isSome_iff.mp huser
  rw [entryMatches_user howner huser, userCategory]
  cases hregular : userEntry source acl subject .user <;> cases hdelegate : userEntry source acl subject .user_delegate
  · exact absurd ⟨hregular, hdelegate⟩ hfound
  all_goals simp [delegateAccess, behindMask, union, permsOf]

theorem entryMatches_groups (huser : userCategory source acl subject = none) : entryMatches source acl subject true =
      let found := groupMatches source acl subject true
      if found.groupObjEntryP = none ∧ found.groupKeyMatched = false ∧ found.groupObjDelegateEntryP = none ∧
          found.groupDelegateKeyMatched = false then
        ⟨found, none, none, none, realmEntry source acl subject .other, realmEntry source acl subject .for_other_delegate⟩
      else ⟨found, none, none, none, none, none⟩ := by
  have hnone : userEntry source acl subject .user = none ∧ userEntry source acl subject .user_delegate = none := by
    by_contra hsome
    exact absurd (userCategory_isSome_iff.mpr hsome) (by simp [huser])
  rw [entryMatches, if_neg (not_owner howner)]
  refine (if_pos ?_).trans ?_
  · simpa [userEntry, realmIdOf] using hnone
  · simp [realmEntry]

end

theorem behindMask_eq_none_iff {perms : List dacl_permset_t} {useMaskObj : Bool} :
    behindMask acl subject useMaskObj perms = none ↔ perms = [] := by
  cases perms <;> simp [behindMask, union]

theorem no_group_iff {found : GroupMatches}
    (h : Collected source acl true (isGroupObj source acl subject) (allGroups acl subject) found) :
    (found.groupObjEntryP = none ∧ found.groupKeyMatched = false ∧ found.groupObjDelegateEntryP = none ∧
      found.groupDelegateKeyMatched = false) ↔ groupCategory source acl subject = none := by
  rw [groupCategory, behindMask_eq_none_iff, h.groupObjEntryP, h.groupKeyMatched, h.groupObjDelegateEntryP,
    h.groupDelegateKeyMatched, groupObjPerms, simplePerms, simplePerms]
  cases isGroupObj source acl subject <;> cases simpleEntry acl .groupobj <;> cases simpleEntry acl .groupobj_delegate <;>
  simp

theorem delegateAccess_group {found : GroupMatches}
    (h : Collected source acl true (isGroupObj source acl subject) (allGroups acl subject) found)
    (hgroup : groupCategory source acl subject ≠ none) :
    some (delegateAccess acl subject ⟨found, none, none, none, none, none⟩).1 = groupCategory source acl subject := by
  have hsome : found.groupObjEntryP.isSome = true ∨ found.groupObjDelegateEntryP.isSome = true ∨ found.groupKeyMatched = true ∨
      found.groupDelegateKeyMatched = true := by
    by_contra hnone
    simp only [not_or, Bool.not_eq_true, Option.isSome_eq_false_iff, Option.isNone_iff_eq_none] at hnone
    exact hgroup ((no_group_iff h).mp ⟨hnone.1, hnone.2.2.1, hnone.2.1, hnone.2.2.2⟩)
  have hne : _ ≠ [] := mt behindMask_eq_none_iff.mpr hgroup
  rw [groupCategory, behindMask_eq true hne]
  simp only [delegateAccess, Option.isSome_none, Bool.false_eq_true, or_self, ↓reduceIte, if_pos hsome]
  congr 2
  have hkey : ∀ perms : List dacl_permset_t, (if (!perms.isEmpty) = true then join perms else 0) = join perms := by
    intro perms
    cases perms <;> rfl
  rw [join_append, join_append, h.groupKeyMatched, h.accumulatedGroupPerms, hkey, h.groupDelegateKeyMatched,
    h.accumulatedGroupDelegatePerms, Bool.true_and, if_pos rfl, hkey, h.groupObjEntryP, h.groupObjDelegateEntryP,
    ← BitVec.or_assoc]
  congr 2
  cases isGroupObj source acl subject <;> cases hobj : simpleEntry acl .groupobj <;>
  cases hdelegate : simpleEntry acl .groupobj_delegate <;>
  simp [groupObjPerms, simplePerms, hobj, hdelegate, substituted]

theorem delegateAccess_other_obj {found : GroupMatches} (entryP delegateP : Option dacl_entry_t)
    (hgroup : found.groupObjEntryP = none ∧ found.groupKeyMatched = false ∧ found.groupObjDelegateEntryP = none ∧
      found.groupDelegateKeyMatched = false)
    (hdelegate : realmIsDefault acl subject = true → simpleEntry acl .otherobj_delegate = none)
    (hother : (otherObjCategory acl subject).isSome = true) :
    some (delegateAccess acl subject ⟨found, none, none, none, entryP, delegateP⟩).1 = otherObjCategory acl subject := by
  obtain ⟨hobj, hkey, hobjDelegate, hkeyDelegate⟩ := hgroup
  cases hrealm : realmIsDefault acl subject with
  | false => simp [otherObjCategory, hrealm] at hother
  | true =>
    have hno := hdelegate hrealm
    cases hentry : simpleEntry acl .otherobj with
    | none => simp [otherObjCategory, hrealm, simplePerms, hentry, hno, behindMask, union] at hother
    | some entry =>
      simp [delegateAccess, hobj, hkey, hobjDelegate, hkeyDelegate, hrealm, hentry, hno, otherObjCategory, simplePerms,
        behindMask, union, substituted]

theorem delegateAccess_foreign {found : GroupMatches} {entryP delegateP : Option dacl_entry_t}
    (hgroup : found.groupObjEntryP = none ∧ found.groupKeyMatched = false ∧ found.groupObjDelegateEntryP = none ∧
      found.groupDelegateKeyMatched = false)
    (hdelegate : realmIsDefault acl subject = true → simpleEntry acl .otherobj_delegate = none)
    (hother : otherObjCategory acl subject = none) (hone : entryP = none ∨ delegateP = none)
    (hany : entryP = none → delegateP = none → simpleEntry acl .anyother = none ∨ simpleEntry acl .anyother_delegate = none) :
    (delegateAccess acl subject ⟨found, none, none, none, entryP, delegateP⟩).1 =
      first [behindMask acl subject true (permsOf entryP ++ permsOf delegateP), anyOtherCategory acl subject] := by
  obtain ⟨hobj, hkey, hobjDelegate, hkeyDelegate⟩ := hgroup
  have hskip : ¬ (realmIsDefault acl subject = true ∧
      ((simpleEntry acl .otherobj).isSome = true ∨ (simpleEntry acl .otherobj_delegate).isSome = true)) := by
    rintro ⟨hrealm, hentry⟩
    rw [hdelegate hrealm] at hentry
    cases hregular : simpleEntry acl .otherobj with
    | none => simp [hregular] at hentry
    | some entry => simp [otherObjCategory, hrealm, simplePerms, hregular, behindMask, union] at hother
  simp only [delegateAccess, hobj, hkey, hobjDelegate, hkeyDelegate, Option.isSome_none, Bool.false_eq_true, or_self,
    ↓reduceIte, if_neg hskip]
  cases entryP with
  | some entry =>
    obtain rfl : delegateP = none := by simpa using hone
    simp [permsOf, behindMask, union, first_cons_some]
  | none =>
    cases delegateP with
    | some entry => simp [permsOf, behindMask, union, first_cons_some]
    | none =>
      have hnone : behindMask acl subject true (permsOf none ++ permsOf none) = none := rfl
      rw [hnone, first_cons_none, anyOtherCategory, simplePerms, simplePerms]
      obtain hno | hno := hany rfl rfl
      · cases simpleEntry acl .anyother_delegate <;> simp [hno, behindMask, union, first]
      · cases simpleEntry acl .anyother <;> simp [hno, behindMask, union, first]

theorem delegateAccess_eq (horderly : Orderly source acl subject) :
    (delegateAccess acl subject (entryMatches source acl subject true)).1 = delegatePerms source acl subject := by
  rw [delegatePerms]
  cases howner : userObjCategory source acl subject with
  | some perms =>
    have h := delegateAccess_owner true (by simp [howner] : (userObjCategory source acl subject).isSome = true)
    rw [howner, Option.some.injEq] at h
    rw [h, first_cons_some]
  | none =>
    rw [first_cons_none]
    cases huser : userCategory source acl subject with
    | some perms =>
      have h := delegateAccess_user howner (by simp [huser])
      rw [huser, Option.some.injEq] at h
      rw [h, first_cons_some]
    | none =>
      rw [first_cons_none]
      obtain hsome | hsome | ⟨hsearched, hrest⟩ := horderly
      · simp [howner] at hsome
      · simp [huser] at hsome
      have hcollected := groupMatches_collected true hsearched
      rw [entryMatches_groups howner huser]
      dsimp only
      cases hgroup : groupCategory source acl subject with
      | some perms =>
        have h := delegateAccess_group hcollected (by simp [hgroup])
        rw [hgroup, Option.some.injEq] at h
        rw [if_neg (mt (no_group_iff hcollected).mp (by simp [hgroup])), h, first_cons_some]
      | none =>
        have hnone := (no_group_iff hcollected).mpr hgroup
        obtain hsome | ⟨hdelegate, hrest⟩ := hrest
        · simp [hgroup] at hsome
        rw [if_pos hnone, first_cons_none]
        cases hother : otherObjCategory acl subject with
        | some perms =>
          have h := delegateAccess_other_obj (realmEntry source acl subject .other)
            (realmEntry source acl subject .for_other_delegate) hnone hdelegate (by simp [hother])
          rw [hother, Option.some.injEq] at h
          rw [h, first_cons_some]
        | none =>
          obtain hsome | ⟨hone, hrest⟩ := hrest
          · simp [hother] at hsome
          rw [first_cons_none]
          refine delegateAccess_foreign hnone hdelegate hother hone fun hentry hentryDelegate => ?_
          obtain hsome | hany := hrest
          · simp [foreignOtherCategory, hentry, hentryDelegate, permsOf, behindMask, union] at hsome
          · exact hany

end dce.dacl
