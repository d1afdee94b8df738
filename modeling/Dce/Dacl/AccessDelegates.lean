import Dce.Dacl.AccessGrowth

open lib dce.sec

namespace dce.dacl

variable {source : epi_source_id_t} {acl acl' : dacl_t} {subject subject' : Subject} {do_dlg : Bool}

/-- Two ACLs that differ in their entries for delegates only. -/
structure SameRegular (acl acl' : dacl_t) : Prop where
  default_realm : acl.default_realm = acl'.default_realm
  simple : ∀ type ∈ [dacl_simple_entry_type_t.userobj, .groupobj, .otherobj, .maskobj, .anyother],
    acl.simple_entries type = acl'.simple_entries type
  complex : ∀ list ∈ [dacl_complex_entry_type_t.user, .group, .other], acl.complex_entries list = acl'.complex_entries list

section

variable (h : SameRegular acl acl')

include h

theorem SameRegular.simpleEntry_eq (type : dacl_simple_entry_type_t)
    (hmem : type ∈ [dacl_simple_entry_type_t.userobj, .groupobj, .otherobj, .maskobj, .anyother]) :
    simpleEntry acl type = simpleEntry acl' type := by
  rw [simpleEntry, simpleEntry, h.simple type hmem]

theorem SameRegular.realm_eq : realmIsDefault acl subject = realmIsDefault acl' subject := by
  rw [realmIsDefault, realmIsDefault, h.default_realm]

theorem SameRegular.groupMatches_eq : groupMatches source acl subject false = groupMatches source acl' subject false := by
  have hlisted : listedGroup source acl false = listedGroup source acl' false := by
    funext realmIdP groupId found
    unfold listedGroup
    rw [h.complex .group (by decide)]
    rfl
  have hlocal : localGroup source acl false = localGroup source acl' false := by
    funext realmIsDefault realmId groupObj groupId found
    unfold localGroup
    rw [hlisted, h.simpleEntry_eq .groupobj (by decide)]
    simp only [Bool.false_eq_true, false_and, ↓reduceIte]
  unfold groupMatches
  rw [h.simpleEntry_eq .maskobj (by decide), hlocal, hlisted, h.realm_eq]

theorem SameRegular.entryMatches_eq : entryMatches source acl subject false = entryMatches source acl' subject false := by
  unfold entryMatches
  rw [h.simpleEntry_eq .userobj (by decide), h.realm_eq, h.complex .user (by decide), h.complex .other (by decide),
    h.groupMatches_eq]
  rfl

theorem SameRegular.initiatorAccess_eq (found : EntryMatches) :
    initiatorAccess acl subject found = initiatorAccess acl' subject found := by
  unfold initiatorAccess maskObjPermMask
  rw [h.simpleEntry_eq .maskobj (by decide), h.simpleEntry_eq .otherobj (by decide),
    h.simpleEntry_eq .anyother (by decide), h.realm_eq]

end

/-- No entry for groups matches, nor one for delegates where these are looked at. -/
structure NoGroup (source : epi_source_id_t) (acl : dacl_t) (subject : Subject) (do_dlg : Bool) : Prop where
  groupobj : isGroupObj source acl subject = true → simpleEntry acl .groupobj = none
  groupobj_delegate : do_dlg = true → isGroupObj source acl subject = true → simpleEntry acl .groupobj_delegate = none
  group : listedPerms source acl .group (allGroups acl subject) = []
  group_delegate : do_dlg = true → listedPerms source acl .group_delegate (allGroups acl subject) = []

theorem groupMatches_eq_none (h : NoGroup source acl subject do_dlg) : groupMatches source acl subject do_dlg = .none := by
  have hsearched : Searched source acl (isGroupObj source acl subject) (allGroups acl subject) := by
    cases his : isGroupObj source acl subject with
    | true => exact .inr (.inr (.inl (h.groupobj his)))
    | false => exact .inr (.inl rfl)
  obtain ⟨hobj, hobjDelegate, hkey, hperms, hkeyDelegate, hpermsDelegate⟩ := groupMatches_collected do_dlg hsearched
  rw [h.group] at hkey hperms
  replace hobj : (groupMatches source acl subject do_dlg).groupObjEntryP = none := by
    rw [hobj, ite_eq_right_iff]
    exact h.groupobj
  replace hobjDelegate : (groupMatches source acl subject do_dlg).groupObjDelegateEntryP = none := by
    rw [hobjDelegate, ite_eq_right_iff, Bool.and_eq_true]
    exact fun hboth => h.groupobj_delegate hboth.1 hboth.2
  replace hkeyDelegate : (groupMatches source acl subject do_dlg).groupDelegateKeyMatched = false := by
    cases do_dlg with
    | false => exact hkeyDelegate
    | true => rw [hkeyDelegate, h.group_delegate rfl]; rfl
  replace hpermsDelegate : (groupMatches source acl subject do_dlg).accumulatedGroupDelegatePerms = 0 := by
    cases do_dlg with
    | false => exact hpermsDelegate
    | true => rw [hpermsDelegate, h.group_delegate rfl]; rfl
  generalize groupMatches source acl subject do_dlg = found at *
  cases found
  simp_all [GroupMatches.none, join]

/-- Two callers that differ in their groups only. -/
structure SameButGroups (subject subject' : Subject) : Prop where
  realm : subject.pac.realm = subject'.pac.realm
  principal : subject.pac.principal = subject'.pac.principal
  userObj : subject.userObj = subject'.userObj
  masks : subject.masks = subject'.masks

section

variable (h : SameButGroups subject subject')

include h

theorem SameButGroups.realm_eq : realmIsDefault acl subject = realmIsDefault acl subject' := by
  rw [realmIsDefault, realmIsDefault, h.realm]

theorem SameButGroups.entryMatches_eq (hnone : NoGroup source acl subject do_dlg) (hnone' : NoGroup source acl subject' do_dlg) :
    entryMatches source acl subject do_dlg = entryMatches source acl subject' do_dlg := by
  unfold entryMatches
  rw [groupMatches_eq_none hnone, groupMatches_eq_none hnone', h.realm_eq, h.realm, h.principal, h.userObj]

theorem SameButGroups.access_eq (found : EntryMatches) : initiatorAccess acl subject found = initiatorAccess acl subject' found ∧
      delegateAccess acl subject found = delegateAccess acl subject' found := by
  constructor
  · unfold initiatorAccess maskObjPermMask
    rw [h.masks, h.realm_eq]
  · unfold delegateAccess maskObjPermMask
    rw [h.masks, h.realm_eq]

end

def subjectOf (permBits : BitVec 32) (pac : sec_id_pa_t epi_uuid_t) (userObj groupObj : epi_principal_id_t) : Subject :=
  ⟨pac, userObj, groupObj, dacl_AddPermBitsToPermsets permBits⟩

theorem determine_eq (source : epi_source_id_t) (acl : dacl_t) (permBits : BitVec 32) (accessRequested : dacl_permset_t)
    (pac : sec_id_pa_t epi_uuid_t) (userObj groupObj : epi_principal_id_t) (isAuthn do_dlg : Bool) :
    dacl_epi_DetermineAccessAllowed source acl (some permBits) accessRequested pac (some userObj) (some groupObj) isAuthn do_dlg =
      let subject := subjectOf permBits pac userObj groupObj
      let found := entryMatches source acl subject do_dlg
      let granted := if !do_dlg then initiatorAccess acl subject found else delegateAccess acl subject found
      if accessRequested &&& granted.1 = accessRequested then ⟨.DACL_SUCCESS, granted.1⟩
      else if granted.2 then ⟨.DACL_ERROR_ACCESS_EXPLICITLY_DENIED, granted.1⟩
      else ⟨.DACL_ERROR_ACCESS_DENIED, granted.1⟩ := by
  simp only [dacl_epi_DetermineAccessAllowed, dacl_epi_CheckAccessParams, reduceCtorEq, or_self, ↓reduceIte, subjectOf,
    BitVec.and_allOnes]
  rfl

theorem determine_accessAllowed (source : epi_source_id_t) (acl : dacl_t) (permBits : BitVec 32) (accessRequested : dacl_permset_t)
    (pac : sec_id_pa_t epi_uuid_t) (userObj groupObj : epi_principal_id_t) (isAuthn do_dlg : Bool) :
    (dacl_epi_DetermineAccessAllowed source acl (some permBits) accessRequested pac (some userObj) (some groupObj) isAuthn
      do_dlg).accessAllowed =
      let subject := subjectOf permBits pac userObj groupObj
      let found := entryMatches source acl subject do_dlg
      (if !do_dlg then initiatorAccess acl subject found else delegateAccess acl subject found).1 := by
  rw [determine_eq]
  dsimp only
  split_ifs <;> rfl

/-- A delegate is granted what the first matching category gives, where the ladder goes by the documented order. Added
permissions never take any away. Entries for delegates are nothing to a caller who is none, and groups are nothing where
no entry for groups matches. -/
theorem determine_access (source : epi_source_id_t) (acl : dacl_t) (permBits : BitVec 32) (accessRequested : dacl_permset_t)
    (pac : sec_id_pa_t epi_uuid_t) (userObj groupObj : epi_principal_id_t) (isAuthn : Bool) :
    let subject (pac : sec_id_pa_t epi_uuid_t) := subjectOf permBits pac userObj groupObj
    let determine (acl : dacl_t) (pac : sec_id_pa_t epi_uuid_t) (do_dlg : Bool) : Access :=
      dacl_epi_DetermineAccessAllowed source acl (some permBits) accessRequested pac (some userObj) (some groupObj) isAuthn do_dlg
    (Orderly source acl (subject pac) → (determine acl pac true).accessAllowed = delegatePerms source acl (subject pac)) ∧
      (∀ acl' do_dlg, Grown acl acl' → Within (determine acl pac do_dlg).accessAllowed (determine acl' pac do_dlg).accessAllowed) ∧
      (∀ acl', SameRegular acl acl' → determine acl pac false = determine acl' pac false) ∧
      ∀ pac' : sec_id_pa_t epi_uuid_t, ∀ do_dlg, pac.realm = pac'.realm → pac.principal = pac'.principal →
        NoGroup source acl (subject pac) do_dlg → NoGroup source acl (subject pac') do_dlg →
        determine acl pac do_dlg = determine acl pac' do_dlg := by
  dsimp only
  refine ⟨?_, ?_, ?_, ?_⟩
  · intro horderly
    rw [determine_accessAllowed]
    exact delegateAccess_eq horderly
  · intro acl' do_dlg hgrown
    rw [determine_accessAllowed, determine_accessAllowed]
    have hfound := entryMatches_grown source hgrown (subjectOf permBits pac userObj groupObj) do_dlg
    cases do_dlg with
    | false => exact initiatorAccess_grown hgrown hfound
    | true => exact delegateAccess_grown hgrown hfound
  · intro acl' hsame
    rw [determine_eq, determine_eq]
    simp only [Bool.not_false, ↓reduceIte, hsame.entryMatches_eq, hsame.initiatorAccess_eq]
  · intro pac' do_dlg hrealm hprincipal hnone hnone'
    have hsame : SameButGroups (subjectOf permBits pac userObj groupObj) (subjectOf permBits pac' userObj groupObj) :=
      ⟨hrealm, hprincipal, rfl, rfl⟩
    rw [determine_eq, determine_eq]
    simp only [hsame.entryMatches_eq hnone hnone', (hsame.access_eq _).1, (hsame.access_eq _).2]

def ownerDelegateAcl : dacl_t where
  mgr_type_tag := zeroUuid
  default_realm := zeroUuid
  num_entries := 2
  simple_entries
    | .userobj => ⟨1, 0⟩
    | .userobj_delegate => ⟨1, dacl_perm_control⟩
    | _ => ⟨0, 0⟩
  complex_entries := fun _ => []
  flags := 0

def ownerPac : sec_id_pa_t epi_uuid_t where
  realm := ⟨zeroUuid⟩
  principal := ⟨zeroUuid⟩
  group := ⟨zeroUuid⟩
  groups := []
  foreign_groupsets := []

/-- The owner matches as a delegate, and is not granted what the entry for that gives. -/
theorem owner_delegate_ignored :
    isUserObj .uuid ownerDelegateAcl (subjectOf 0 ownerPac zeroUuid zeroUuid) = true ∧
      simpleEntry ownerDelegateAcl .userobj_delegate = some ⟨1, dacl_perm_control⟩ ∧
      (dacl_epi_DetermineAccessAllowed .uuid ownerDelegateAcl (some 0) dacl_perm_control ownerPac (some zeroUuid) (some zeroUuid)
        true true) = ⟨.DACL_ERROR_ACCESS_EXPLICITLY_DENIED, 0⟩ := by
  decide +kernel

end dce.dacl
