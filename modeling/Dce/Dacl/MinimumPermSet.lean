import Dce.Dacl.AccessDelegates
import Dce.Dacl.GetMode

open lib dce.sec

namespace dce.dacl

variable {source : epi_source_id_t} {acl : dacl_t} {subject : Subject} {do_dlg : Bool} {perms : dacl_permset_t}

/-- What the search through groups has found gives the common permissions. -/
structure GroupsCommon (acl : dacl_t) (perms : dacl_permset_t) (found : GroupMatches) : Prop where
  groupObjEntryP : ∀ entry, found.groupObjEntryP = some entry → simpleEntry acl .groupobj = some entry
  groupObjDelegateEntryP : ∀ entry, found.groupObjDelegateEntryP = some entry → simpleEntry acl .groupobj_delegate = some entry
  groupKeyMatched : found.groupKeyMatched = true → Within perms found.accumulatedGroupPerms
  groupDelegateKeyMatched : found.groupDelegateKeyMatched = true → Within perms found.accumulatedGroupDelegatePerms

/-- So do all matching entries. -/
structure MatchesCommon (acl : dacl_t) (perms : dacl_permset_t) (found : EntryMatches) : Prop extends
    GroupsCommon acl perms found.toGroupMatches where
  userObjEntryP : ∀ entry, found.userObjEntryP = some entry → simpleEntry acl .userobj = some entry
  userEntryP : ∀ entry, found.userEntryP = some entry → Within perms entry.perms
  userDelegateEntryP : ∀ entry, found.userDelegateEntryP = some entry → Within perms entry.perms
  otherEntryP : ∀ entry, found.otherEntryP = some entry → Within perms entry.perms
  otherDelegateEntryP : ∀ entry, found.otherDelegateEntryP = some entry → Within perms entry.perms

theorem groupsCommon_none : GroupsCommon acl perms .none :=
  ⟨by simp [GroupMatches.none], by simp [GroupMatches.none], by simp [GroupMatches.none], by simp [GroupMatches.none]⟩

theorem Common.find (hacl : Common acl perms) {userIdP groupIdP realmIdP : Option epi_uuid_t} {list : dacl_complex_entry_type_t}
    {entry : dacl_entry_t}
    (hfound : dacl_FindMatchingListEntry source userIdP groupIdP realmIdP (acl.complex_entries list) = some entry) :
    Within perms entry.perms :=
  hacl.complex list entry (List.mem_of_find?_eq_some hfound)

variable {found : GroupMatches}

theorem GroupsCommon.listed (hacl : Common acl perms) (h : GroupsCommon acl perms found)
    (realmIdP : Option epi_uuid_t) (groupId : epi_uuid_t) :
    GroupsCommon acl perms (listedGroup source acl do_dlg realmIdP groupId found) := by
  have hentry : ∀ list before, ∀ entry ∈ dacl_FindMatchingListEntry source none (some groupId) realmIdP (acl.complex_entries list),
      Within perms (before ||| entry.perms) :=
    fun list before entry hfound => within_or_right (hacl.find hfound)
  have hgroup := hentry .group
  have hgroupDelegate := hentry .group_delegate
  obtain ⟨hobj, hobjDelegate, hkey, hkeyDelegate⟩ := h
  unfold listedGroup
  cases hregular : dacl_FindMatchingListEntry source none (some groupId) realmIdP (acl.complex_entries .group) <;>
  cases hdelegate : dacl_FindMatchingListEntry source none (some groupId) realmIdP (acl.complex_entries .group_delegate) <;>
  cases do_dlg <;>
  · constructor <;> simp_all

theorem GroupsCommon.own (hacl : Common acl perms) (h : GroupsCommon acl perms found)
    (realmIsDefault : Bool) (realmId groupObj groupId : epi_uuid_t) :
    GroupsCommon acl perms (localGroup source acl do_dlg realmIsDefault realmId groupObj groupId found) := by
  refine GroupsCommon.listed hacl ?_ _ groupId
  obtain ⟨hobj, hobjDelegate, hkey, hkeyDelegate⟩ := h
  split_ifs
  · exact ⟨fun _ => id, fun _ => id, hkey, hkeyDelegate⟩
  · exact ⟨fun _ => id, hobjDelegate, hkey, hkeyDelegate⟩
  · exact ⟨hobj, fun _ => id, hkey, hkeyDelegate⟩
  · exact ⟨hobj, hobjDelegate, hkey, hkeyDelegate⟩

theorem GroupsCommon.accumulate (h : GroupsCommon acl perms found) (maskObjPresent : Bool)
    {check : epi_uuid_t → GroupMatches → GroupMatches}
    (hcheck : ∀ groupId found, GroupsCommon acl perms found → GroupsCommon acl perms (check groupId found))
    (groups : List (sec_id_t epi_uuid_t)) : GroupsCommon acl perms (accumulate maskObjPresent check groups found) := by
  induction groups generalizing found with
  | nil => exact h
  | cons group groups ih =>
    rw [dacl.accumulate]
    split_ifs
    · exact ih (hcheck group.uuid found h)
    · exact h

variable (source) in
theorem groupMatches_common (hacl : Common acl perms) (subject : Subject) (do_dlg : Bool) :
    GroupsCommon acl perms (groupMatches source acl subject do_dlg) := by
  have hforeign : ∀ (groupsets : List (sec_id_foreign_groupset_t epi_uuid_t)) found, GroupsCommon acl perms found →
      GroupsCommon acl perms (groupsets.foldl (fun found groupset => dacl.accumulate (simpleEntry acl .maskobj).isSome
        (listedGroup source acl do_dlg (some groupset.realm.uuid)) groupset.groups found) found) := by
    intro groupsets
    induction groupsets with
    | nil => exact fun found h => h
    | cons groupset groupsets ih =>
      intro found h
      exact ih _ (h.accumulate _ (fun groupId found h => h.listed hacl _ groupId) groupset.groups)
  refine hforeign _ _ (GroupsCommon.accumulate ?_ _ (fun groupId found h => h.own hacl _ _ _ groupId) _)
  exact groupsCommon_none.own hacl _ _ _ _

theorem entryMatches_common (hacl : Common acl perms) (subject : Subject) (do_dlg : Bool) :
    MatchesCommon acl perms (entryMatches source acl subject do_dlg) := by
  have hgroups := groupMatches_common source hacl subject do_dlg
  have hfound : ∀ userIdP realmIdP list entry, dacl_FindMatchingListEntry source userIdP none realmIdP (acl.complex_entries list) =
      some entry → Within perms entry.perms := fun _ _ _ _ h => hacl.find h
  have hdelegate : ∀ userIdP realmIdP list entry,
      (if do_dlg = true then dacl_FindMatchingListEntry source userIdP none realmIdP (acl.complex_entries list) else none) =
        some entry → Within perms entry.perms := by
    intro userIdP realmIdP list entry h
    split_ifs at h
    exact hfound userIdP realmIdP list entry h
  unfold entryMatches
  dsimp only
  generalize (if realmIsDefault acl subject = true then none else some subject.pac.realm.uuid) = realmIdP
  refine iteInduction (fun _ => ?_) (fun _ => iteInduction (fun _ => iteInduction (fun _ => ?_) (fun _ => ?_)) (fun _ => ?_))
  · exact ⟨groupsCommon_none, fun _ => id, by simp, by simp, by simp, by simp⟩
  · exact ⟨hgroups, by simp, by simp, by simp, hfound none (some subject.pac.realm.uuid) .other,
      hdelegate none (some subject.pac.realm.uuid) .for_other_delegate⟩
  · exact ⟨hgroups, by simp, by simp, by simp, by simp, by simp⟩
  · exact ⟨groupsCommon_none, by simp, hfound (some subject.pac.principal.uuid) realmIdP .user,
      hdelegate (some subject.pac.principal.uuid) realmIdP .user_delegate, by simp, by simp⟩

/-- The mode bits of an ACL give its entries back where they stand in for them. -/
structure ModeOf (acl : dacl_t) (masks : AddlMasks) : Prop where
  owner : ∀ entry, simpleEntry acl .userobj = some entry → substituted masks.addlOwnerMask entry.perms = entry.perms
  mask : ∀ entry, simpleEntry acl .maskobj = some entry → substituted masks.addlGroupMask entry.perms = entry.perms
  group : simpleEntry acl .maskobj = none → ∀ entry, simpleEntry acl .groupobj = some entry →
    substituted masks.addlGroupMask entry.perms = entry.perms
  other : ∀ entry, simpleEntry acl .otherobj = some entry → substituted masks.addlOtherMask entry.perms = entry.perms

theorem substituted_own (perms : dacl_permset_t) : substituted (perms &&& DACL_PERM_RWX) perms = perms := by
  have hall : ~~~DACL_PERM_RWX ||| DACL_PERM_RWX = BitVec.allOnes 32 := by decide
  rw [substituted, ← BitVec.and_or_distrib_left, hall, BitVec.and_allOnes]

theorem extract_modeOf (acl : dacl_t) : ModeOf acl (dacl_AddPermBitsToPermsets (dacl_ExtractPermBits acl)) := by
  have hall : DACL_ALL_USER_PERMBITS = dacl_OnePermsetToPermBits DACL_PERM_RWX := by decide
  have hmasks : ∃ user group other, dacl_ExtractPermBits acl = dacl_OnePermsetToPermBits user |||
        dacl_OnePermsetToPermBits group >>> 3 ||| dacl_OnePermsetToPermBits other >>> 6 ∧
      (∀ entry, simpleEntry acl .userobj = some entry → user = entry.perms) ∧
      (∀ entry, simpleEntry acl .maskobj = some entry → group = entry.perms) ∧
      (simpleEntry acl .maskobj = none → ∀ entry, simpleEntry acl .groupobj = some entry → group = entry.perms) ∧
      ∀ entry, simpleEntry acl .otherobj = some entry → other = entry.perms := by
    unfold dacl_ExtractPermBits
    rw [hall]
    cases simpleEntry acl .userobj <;> cases simpleEntry acl .maskobj <;> cases simpleEntry acl .groupobj <;>
    cases simpleEntry acl .otherobj <;> exact ⟨_, _, _, rfl, by simp, by simp, by simp, by simp⟩
  obtain ⟨user, group, other, heq, huser, hmask, hgroup, hother⟩ := hmasks
  obtain ⟨hownerMask, hgroupMask, hotherMask⟩ := addl_onePermset user group other
  rw [heq]
  refine ⟨?_, ?_, ?_, ?_⟩
  · intro entry hentry
    rw [hownerMask, huser entry hentry, substituted_own]
  · intro entry hentry
    rw [hgroupMask, hmask entry hentry, substituted_own]
  · intro hnone entry hentry
    rw [hgroupMask, hgroup hnone entry hentry, substituted_own]
  · intro entry hentry
    rw [hotherMask, hother entry hentry, substituted_own]

theorem access_common (hacl : Common acl perms) (hmode : ModeOf acl subject.masks) {granted : dacl_permset_t}
    (hgranted : Within perms granted) (useMaskObj : Bool) :
    Within (DACL_ACCESS_MASK_WRITE_RIGHTS perms)
      (DACL_ACCESS_MASK_ACCESS (maskObjPermMask acl subject) granted useMaskObj) := by
  refine DACL_ACCESS_MASK_WRITE_RIGHTS_grown (within_and_iff.mpr ⟨hgranted, ?_⟩)
  cases useMaskObj with
  | false => exact within_allOnes
  | true =>
    rw [if_pos rfl, maskObjPermMask]
    cases hmask : simpleEntry acl .maskobj with
    | none => exact within_allOnes
    | some entry =>
      have hown := hmode.mask entry hmask
      rw [substituted] at hown
      dsimp only
      rw [hown]
      exact hacl.simple .maskobj entry hmask

/-- Nothing is found before the entries for others. -/
structure NoneFound (found : EntryMatches) : Prop where
  userObjEntryP : found.userObjEntryP = none
  userEntryP : found.userEntryP = none
  userDelegateEntryP : found.userDelegateEntryP = none
  groupObjEntryP : found.groupObjEntryP = none
  groupKeyMatched : found.groupKeyMatched = false
  groupObjDelegateEntryP : found.groupObjDelegateEntryP = none
  groupDelegateKeyMatched : found.groupDelegateKeyMatched = false

theorem initiatorAccess_common (hacl : Common acl perms) (hmode : ModeOf acl subject.masks) {found : EntryMatches}
    (hfound : MatchesCommon acl perms found) (hany : simpleEntry acl .anyother = none → perms = 0) :
    Within (DACL_ACCESS_MASK_WRITE_RIGHTS perms) (initiatorAccess acl subject found).1 := by
  have hmask : ∀ {granted}, Within perms granted → ∀ useMaskObj, Within (DACL_ACCESS_MASK_WRITE_RIGHTS perms)
      (DACL_ACCESS_MASK_ACCESS (maskObjPermMask acl subject) granted useMaskObj) := access_common hacl hmode
  have hcommon : ∀ {type entry}, simpleEntry acl type = some entry → Within perms entry.perms := hacl.simple _ _
  unfold initiatorAccess
  dsimp only
  cases howner : found.userObjEntryP with
  | some entry =>
    have hentry := hfound.userObjEntryP entry howner
    have hown := hmode.owner entry hentry
    rw [substituted] at hown
    dsimp only
    rw [hown]
    exact hmask (hcommon hentry) false
  | none =>
  cases huser : found.userEntryP with
  | some entry => exact hmask (hfound.userEntryP entry huser) true
  | none =>
  cases hgroup : found.groupObjEntryP with
  | some entry =>
    have hentry := hfound.groupObjEntryP entry hgroup
    dsimp only
    split_ifs with hnomask
    · have hown := hmode.group (Option.isNone_iff_eq_none.mp hnomask) entry hentry
      rw [substituted] at hown
      rw [hown]
      exact hmask (hcommon hentry) true
    · exact hmask (within_or_left (hcommon hentry)) true
  | none =>
  dsimp only
  split_ifs with hkey
  · exact hmask (hfound.groupKeyMatched hkey) true
  cases hother : simpleEntry acl .otherobj <;> cases realmIsDefault acl subject
  case some.true entry =>
    have hown := hmode.other entry hother
    rw [substituted] at hown
    dsimp only
    rw [hown]
    exact hmask (hcommon hother) false
  all_goals
    cases hforeign : found.otherEntryP with
    | some entry => exact hmask (hfound.otherEntryP entry hforeign) true
    | none =>
      cases hanyother : simpleEntry acl .anyother with
      | some entry => exact hmask (hcommon hanyother) true
      | none => rw [hany hanyother]; exact zero_within

theorem delegateAccess_stale {found : EntryMatches} (hnone : NoneFound found) (hrealm : realmIsDefault acl subject = true)
    (hother : simpleEntry acl .otherobj = none) (hdelegate : simpleEntry acl .otherobj_delegate ≠ none) :
    (delegateAccess acl subject found).1 = DACL_ACCESS_MASK_WRITE_RIGHTS (acl.simple_entries .otherobj).perms := by
  obtain ⟨howner, huser, huserDelegate, hgroup, hkey, hgroupDelegate, hkeyDelegate⟩ := hnone
  have hsome := Option.isSome_iff_ne_none.mpr hdelegate
  simp only [delegateAccess, howner, huser, huserDelegate, hgroup, hkey, hgroupDelegate, hkeyDelegate, hrealm, hother, hsome,
    Option.isSome_none, Bool.false_eq_true, or_self, or_true, and_self, ↓reduceIte, DACL_ACCESS_MASK_ACCESS, BitVec.and_allOnes]
  exact congrArg _ BitVec.zero_or

theorem delegateAccess_common (hacl : Common acl perms) (hmode : ModeOf acl subject.masks) {found : EntryMatches}
    (hfound : MatchesCommon acl perms found) (hany : simpleEntry acl .anyother = none → perms = 0)
    (hplaced : NoneFound found → realmIsDefault acl subject = true → simpleEntry acl .otherobj = none →
      simpleEntry acl .otherobj_delegate = none) :
    Within (DACL_ACCESS_MASK_WRITE_RIGHTS perms) (delegateAccess acl subject found).1 := by
  have hmask : ∀ {granted}, Within perms granted → ∀ useMaskObj, Within (DACL_ACCESS_MASK_WRITE_RIGHTS perms)
      (DACL_ACCESS_MASK_ACCESS (maskObjPermMask acl subject) granted useMaskObj) := access_common hacl hmode
  have hcommon : ∀ {type entry}, simpleEntry acl type = some entry → Within perms entry.perms := hacl.simple _ _
  unfold delegateAccess
  dsimp only
  cases howner : found.userObjEntryP with
  | some entry =>
    have hentry := hfound.userObjEntryP entry howner
    have hown := hmode.owner entry hentry
    rw [substituted] at hown
    dsimp only
    rw [hown]
    exact hmask (hcommon hentry) false
  | none =>
  dsimp only
  by_cases huser : found.userEntryP.isSome = true ∨ found.userDelegateEntryP.isSome = true
  · rw [if_pos huser]
    refine hmask ?_ true
    obtain h | h := huser
    · obtain ⟨entry, hentry⟩ := Option.isSome_iff_exists.mp h
      rw [hentry]
      exact within_or_left (hfound.userEntryP entry hentry)
    · obtain ⟨entry, hentry⟩ := Option.isSome_iff_exists.mp h
      rw [hentry]
      exact within_or_right (hfound.userDelegateEntryP entry hentry)
  rw [if_neg huser]
  by_cases hgroup : found.groupObjEntryP.isSome = true ∨ found.groupObjDelegateEntryP.isSome = true ∨
      found.groupKeyMatched = true ∨ found.groupDelegateKeyMatched = true
  · rw [if_pos hgroup]
    refine hmask ?_ true
    obtain h | h | h | h := hgroup
    · obtain ⟨entry, hgroupObj⟩ := Option.isSome_iff_exists.mp h
      have hentry := hfound.groupObjEntryP entry hgroupObj
      refine within_or_left (within_or_left (within_or_left ?_))
      rw [hgroupObj]
      dsimp only
      split_ifs with hnomask
      · have hown := hmode.group (Option.isNone_iff_eq_none.mp hnomask) entry hentry
        rw [substituted] at hown
        rw [hown]
        exact hcommon hentry
      · exact hcommon hentry
    · obtain ⟨entry, hentry⟩ := Option.isSome_iff_exists.mp h
      refine within_or_left (within_or_left (within_or_right ?_))
      rw [hentry]
      exact hcommon (hfound.groupObjDelegateEntryP entry hentry)
    · refine within_or_left (within_or_right ?_)
      rw [if_pos h]
      exact hfound.groupKeyMatched h
    · refine within_or_right ?_
      rw [if_pos h]
      exact hfound.groupDelegateKeyMatched h
  rw [if_neg hgroup]
  have hnone : NoneFound found := by
    simp only [not_or, Bool.not_eq_true, Option.isSome_eq_false_iff, Option.isNone_iff_eq_none] at huser hgroup
    exact ⟨howner, huser.1, huser.2, hgroup.1, hgroup.2.2.1, hgroup.2.1, hgroup.2.2.2⟩
  by_cases hlocal : realmIsDefault acl subject = true ∧
      ((simpleEntry acl .otherobj).isSome = true ∨ (simpleEntry acl .otherobj_delegate).isSome = true)
  · rw [if_pos hlocal]
    refine hmask (within_or_left ?_) false
    cases hother : simpleEntry acl .otherobj with
    | some entry =>
      have hown := hmode.other entry hother
      rw [substituted] at hown
      dsimp only
      rw [hown]
      exact hcommon hother
    | none =>
      rw [hother, hplaced hnone hlocal.1 hother] at hlocal
      exact absurd hlocal.2 (by simp)
  rw [if_neg hlocal]
  cases hforeignDelegate : found.otherDelegateEntryP with
  | some entry => exact hmask (hfound.otherDelegateEntryP entry hforeignDelegate) true
  | none =>
  cases hforeign : found.otherEntryP with
  | some entry => exact hmask (hfound.otherEntryP entry hforeign) true
  | none =>
  cases hdelegate : simpleEntry acl .anyother_delegate with
  | some entry => exact hmask (hcommon hdelegate) true
  | none =>
  cases hanyother : simpleEntry acl .anyother with
  | some entry => exact hmask (hcommon hanyother) true
  | none => rw [hany hanyother]; exact zero_within

theorem listedGroup_groupObj (realmIdP : Option epi_uuid_t) (groupId : epi_uuid_t) (found : GroupMatches) :
    (listedGroup source acl do_dlg realmIdP groupId found).groupObjEntryP = found.groupObjEntryP := by
  unfold listedGroup
  cases dacl_FindMatchingListEntry source none (some groupId) realmIdP (acl.complex_entries .group) <;>
  cases dacl_FindMatchingListEntry source none (some groupId) realmIdP (acl.complex_entries .group_delegate) <;>
  cases do_dlg <;> rfl

theorem localGroup_groupObj (realmIsDefault : Bool) (realmId groupObj groupId : epi_uuid_t) (found : GroupMatches) :
    (localGroup source acl do_dlg realmIsDefault realmId groupObj groupId found).groupObjEntryP =
      if found.groupObjEntryP = none ∧ Epi_PrinId_Cmp source groupId groupObj = 0 ∧ realmIsDefault = true then
        simpleEntry acl .groupobj
      else found.groupObjEntryP := by
  unfold localGroup
  rw [listedGroup_groupObj]
  split_ifs <;> rfl

theorem accumulate_groupObj {groups : List (sec_id_t epi_uuid_t)} {maskObjPresent : Bool}
    (hsome : simpleEntry acl .groupobj ≠ none)
    (hfound : found.groupObjEntryP ≠ none ∨ realmIsDefault acl subject = true ∧
      ∃ group ∈ groups, Epi_PrinId_Cmp source group.uuid subject.groupObj = 0) :
    (accumulate maskObjPresent
      (localGroup source acl do_dlg (realmIsDefault acl subject) subject.pac.realm.uuid subject.groupObj) groups
        found).groupObjEntryP ≠ none := by
  induction groups generalizing found with
  | nil => exact hfound.resolve_right (by simp)
  | cons group groups ih =>
    rw [accumulate]
    by_cases hon : found.groupObjEntryP = none ∨ maskObjPresent = true
    · rw [if_pos hon]
      refine ih ?_
      rw [localGroup_groupObj]
      obtain hfound | ⟨hrealm, group', hmem, his⟩ := hfound
      · rw [if_neg fun h => hfound h.1]
        exact .inl hfound
      obtain rfl | hmem := List.mem_cons.mp hmem
      · left
        split_ifs with h
        · exact hsome
        · exact fun hnone => h ⟨hnone, his, hrealm⟩
      · exact .inr ⟨hrealm, group', hmem, his⟩
    · rw [if_neg hon]
      exact fun hnone => hon (.inl hnone)

theorem accumulate_listed_groupObj (maskObjPresent : Bool) (realmIdP : Option epi_uuid_t)
    (groups : List (sec_id_t epi_uuid_t)) :
    (accumulate maskObjPresent (listedGroup source acl do_dlg realmIdP) groups found).groupObjEntryP = found.groupObjEntryP := by
  induction groups generalizing found with
  | nil => rfl
  | cons group groups ih =>
    rw [accumulate]
    split_ifs
    · rw [ih, listedGroup_groupObj]
    · rfl

theorem groupMatches_groupObj (do_dlg : Bool) (his : isGroupObj source acl subject = true)
    (hnone : (groupMatches source acl subject do_dlg).groupObjEntryP = none) : simpleEntry acl .groupobj = none := by
  by_contra hsome
  refine absurd hnone ?_
  have hforeign : ∀ (groupsets : List (sec_id_foreign_groupset_t epi_uuid_t)) found,
      (groupsets.foldl (fun found groupset => accumulate (simpleEntry acl .maskobj).isSome
        (listedGroup source acl do_dlg (some groupset.realm.uuid)) groupset.groups found) found).groupObjEntryP =
          found.groupObjEntryP := by
    intro groupsets
    induction groupsets with
    | nil => exact fun found => rfl
    | cons groupset groupsets ih => exact fun found => (ih _).trans (accumulate_listed_groupObj _ _ _)
  unfold groupMatches
  dsimp only
  rw [hforeign]
  rw [isGroupObj, Bool.and_eq_true, ownGroups, List.any_cons, List.any_map, Bool.or_eq_true] at his
  refine accumulate_groupObj hsome ?_
  obtain ⟨hrealm, hfirst | hrest⟩ := his
  · left
    rw [localGroup_groupObj, if_pos ⟨rfl, by simpa using hfirst, hrealm⟩]
    exact hsome
  · right
    simpa [hrealm] using hrest

theorem noneFound_iff : NoneFound (entryMatches source acl subject true) ↔
    userObjCategory source acl subject = none ∧ userCategory source acl subject = none ∧
      groupCategory source acl subject = none := by
  cases howner : userObjCategory source acl subject with
  | some perms =>
    obtain ⟨hfound, hentry⟩ :=
      entryMatches_owner true (by simp [howner] : (userObjCategory source acl subject).isSome = true)
    rw [hfound]
    refine ⟨fun h => ?_, fun h => absurd h.1 (by simp)⟩
    have hnone : simpleEntry acl .userobj = none := h.userObjEntryP
    rw [hnone] at hentry
    exact absurd hentry (by simp)
  | none =>
  cases huser : userCategory source acl subject with
  | some perms =>
    have hsome : (userCategory source acl subject).isSome = true := by simp [huser]
    rw [entryMatches_user howner hsome]
    refine ⟨fun h => ?_, fun h => absurd h.2.1 (by simp)⟩
    exact absurd ⟨h.userEntryP, h.userDelegateEntryP⟩ (userCategory_isSome_iff.mp hsome)
  | none =>
  simp only [true_and]
  rw [entryMatches_groups howner huser]
  dsimp only
  constructor
  · intro h
    have hgroups : (groupMatches source acl subject true).groupObjEntryP = none ∧
        (groupMatches source acl subject true).groupKeyMatched = false ∧
        (groupMatches source acl subject true).groupObjDelegateEntryP = none ∧
        (groupMatches source acl subject true).groupDelegateKeyMatched = false := by
      split_ifs at h with hall
      · exact hall
      · exact ⟨h.groupObjEntryP, h.groupKeyMatched, h.groupObjDelegateEntryP, h.groupDelegateKeyMatched⟩
    have hsearched : Searched source acl (isGroupObj source acl subject) (allGroups acl subject) := by
      cases his : isGroupObj source acl subject with
      | false => exact .inr (.inl rfl)
      | true => exact .inr (.inr (.inl (groupMatches_groupObj true his hgroups.1)))
    exact (no_group_iff (groupMatches_collected true hsearched)).mp hgroups
  · intro hnone
    have hsearched : Searched source acl (isGroupObj source acl subject) (allGroups acl subject) := by
      rw [groupCategory, behindMask_eq_none_iff, List.append_eq_nil_iff, List.append_eq_nil_iff] at hnone
      exact .inr (.inr (.inr hnone.2))
    obtain ⟨hobj, hkey, hobjDelegate, hkeyDelegate⟩ := (no_group_iff (groupMatches_collected true hsearched)).mpr hnone
    rw [if_pos ⟨hobj, hkey, hobjDelegate, hkeyDelegate⟩]
    exact ⟨rfl, rfl, rfl, hobj, hkey, hobjDelegate, hkeyDelegate⟩

/-- The callers for whom the minimum can be trusted. The others are delegates of the default realm, none of whose entries come
before those for others: of an entry for such delegates, without one for that realm itself, another place is read. There
the permissions left in it have to be as many. -/
def Trusted (source : epi_source_id_t) (acl : dacl_t) (subject : Subject) (do_dlg : Bool) : Prop :=
  do_dlg = false ∨ (userObjCategory source acl subject).isSome = true ∨ (userCategory source acl subject).isSome = true ∨
    (groupCategory source acl subject).isSome = true ∨ realmIsDefault acl subject = false ∨
      simpleEntry acl .otherobj ≠ none ∨ simpleEntry acl .otherobj_delegate = none ∨
        (simpleEntry acl .anyother ≠ none → ∀ perms, Common acl perms →
          Within (DACL_ACCESS_MASK_WRITE_RIGHTS perms)
            (DACL_ACCESS_MASK_WRITE_RIGHTS (acl.simple_entries .otherobj).perms))

theorem trusted_iff_of_stale (hnone : NoneFound (entryMatches source acl subject true))
    (hrealm : realmIsDefault acl subject = true) (hother : simpleEntry acl .otherobj = none)
    (hdelegate : simpleEntry acl .otherobj_delegate ≠ none) :
    Trusted source acl subject true ↔ (simpleEntry acl .anyother ≠ none → ∀ perms, Common acl perms →
      Within (DACL_ACCESS_MASK_WRITE_RIGHTS perms) (DACL_ACCESS_MASK_WRITE_RIGHTS (acl.simple_entries .otherobj).perms)) := by
  obtain ⟨howner, huser, hgroup⟩ := noneFound_iff.mp hnone
  simp [Trusted, howner, huser, hgroup, hrealm, hother, hdelegate]

theorem delegateAccess_minimum_iff (hflagged : Flagged acl) (hmode : ModeOf acl subject.masks) :
    Within (DACL_ACCESS_MASK_WRITE_RIGHTS (dacl_ExtractMinimumPermSet acl))
      (delegateAccess acl subject (entryMatches source acl subject true)).1 ↔ Trusted source acl subject true := by
  have hcommon := minimum_common hflagged
  by_cases hstale : NoneFound (entryMatches source acl subject true) ∧ realmIsDefault acl subject = true ∧
      simpleEntry acl .otherobj = none ∧ simpleEntry acl .otherobj_delegate ≠ none
  · obtain ⟨hnone, hrealm, hother, hdelegate⟩ := hstale
    rw [delegateAccess_stale hnone hrealm hother hdelegate, trusted_iff_of_stale hnone hrealm hother hdelegate]
    constructor
    · intro hwithin hany perms hperms
      exact (DACL_ACCESS_MASK_WRITE_RIGHTS_grown ((within_minimum_iff hflagged hany).mpr hperms)).trans hwithin
    · intro hall
      by_cases hany : simpleEntry acl .anyother = none
      · rw [minimum_eq_zero hflagged hany]
        exact zero_within
      · exact hall hany _ hcommon
  · refine ⟨fun _ => ?_, fun _ => ?_⟩
    · by_contra hnot
      simp only [Trusted, not_or, Bool.not_eq_true, Option.isSome_eq_false_iff, Option.isNone_iff_eq_none, ne_eq, not_not,
        Bool.not_eq_false] at hnot
      obtain ⟨-, howner, huser, hgroup, hrealm, hother, hdelegate, -⟩ := hnot
      exact hstale ⟨noneFound_iff.mpr ⟨howner, huser, hgroup⟩, hrealm, hother, hdelegate⟩
    · refine delegateAccess_common hcommon hmode (entryMatches_common hcommon subject true) (minimum_eq_zero hflagged) ?_
      intro hnone hrealm hother
      by_contra hdelegate
      exact hstale ⟨hnone, hrealm, hother, hdelegate⟩

/-- The minimum set of permissions, but for insert and delete without write, is granted: with mode bits that the ACL gives,
exactly to the callers for whom it can be trusted. -/
theorem minimum_granted_iff (source : epi_source_id_t) (acl : dacl_t) (hflagged : Flagged acl) (pac : sec_id_pa_t epi_uuid_t)
    (userObj groupObj : epi_principal_id_t) (isAuthn do_dlg : Bool) :
    let determine (accessRequested : dacl_permset_t) : Access :=
      dacl_epi_DetermineAccessAllowed source acl (some (dacl_ExtractPermBits acl)) accessRequested pac (some userObj)
        (some groupObj) isAuthn do_dlg
    let minimum := DACL_ACCESS_MASK_WRITE_RIGHTS (dacl_ExtractMinimumPermSet acl)
    (∀ accessRequested, Within minimum (determine accessRequested).accessAllowed ∧
      (Within accessRequested minimum → (determine accessRequested).rtnVal = .DACL_SUCCESS)) ↔
      Trusted source acl (subjectOf (dacl_ExtractPermBits acl) pac userObj groupObj) do_dlg := by
  dsimp only
  generalize hsubject : subjectOf (dacl_ExtractPermBits acl) pac userObj groupObj = subject
  have hmode : ModeOf acl subject.masks := hsubject ▸ extract_modeOf acl
  have hgranted : Within (DACL_ACCESS_MASK_WRITE_RIGHTS (dacl_ExtractMinimumPermSet acl))
      (if !do_dlg then initiatorAccess acl subject (entryMatches source acl subject do_dlg)
        else delegateAccess acl subject (entryMatches source acl subject do_dlg)).1 ↔ Trusted source acl subject do_dlg := by
    cases do_dlg with
    | false =>
      refine iff_of_true ?_ (.inl rfl)
      have hcommon := minimum_common hflagged
      exact initiatorAccess_common hcommon hmode (entryMatches_common hcommon subject false) (minimum_eq_zero hflagged)
    | true => exact delegateAccess_minimum_iff hflagged hmode
  rw [← hgranted]
  simp only [determine_accessAllowed, hsubject]
  refine ⟨fun h => (h 0).1, fun hwithin accessRequested => ⟨hwithin, fun hrequested => ?_⟩⟩
  rw [determine_eq]
  simp only [hsubject]
  exact congrArg Access.rtnVal (if_pos (hrequested.trans hwithin))

def otherDelegateAcl : dacl_t where
  mgr_type_tag := zeroUuid
  default_realm := zeroUuid
  num_entries := 2
  simple_entries
    | .anyother => ⟨1, dacl_perm_read⟩
    | .otherobj_delegate => ⟨1, dacl_perm_read⟩
    | _ => ⟨0, 0⟩
  complex_entries := fun _ => []
  flags := 0

theorem otherDelegateAcl_flagged : Flagged otherDelegateAcl := by
  intro type
  cases type <;> simp [otherDelegateAcl]

def otherUuid : epi_uuid_t := ⟨List.replicate 16 1, rfl⟩

/-- Reading is the minimum, and is not granted to a delegate. -/
theorem minimum_refused : dacl_ExtractMinimumPermSet otherDelegateAcl = dacl_perm_read ∧
    dacl_epi_DetermineAccessAllowed .uuid otherDelegateAcl (some (dacl_ExtractPermBits otherDelegateAcl)) dacl_perm_read ownerPac
      (some otherUuid) (some otherUuid) true true = ⟨.DACL_ERROR_ACCESS_DENIED, 0⟩ := by
  decide +kernel

/-- The same caller is granted it where it is no delegate. -/
theorem minimum_granted_initiator :
    (dacl_epi_DetermineAccessAllowed .uuid otherDelegateAcl (some (dacl_ExtractPermBits otherDelegateAcl)) dacl_perm_read ownerPac
      (some otherUuid) (some otherUuid) true false).rtnVal = .DACL_SUCCESS := by
  have hread : DACL_ACCESS_MASK_WRITE_RIGHTS (dacl_ExtractMinimumPermSet otherDelegateAcl) = dacl_perm_read := by
    decide +kernel
  refine ((minimum_granted_iff .uuid otherDelegateAcl otherDelegateAcl_flagged ownerPac otherUuid otherUuid true
    false).mpr (.inl rfl) dacl_perm_read).2 ?_
  rw [hread]
  exact within_refl

end dce.dacl
