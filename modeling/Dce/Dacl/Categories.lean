import Dce.Dacl.Access
import Dce.Lib.Categories

open lib dce.sec

namespace dce.dacl

variable (source : epi_source_id_t) (acl : dacl_t) (subject : Subject) (do_dlg : Bool)

def realmIdOf : Option epi_uuid_t := if realmIsDefault acl subject then none else some subject.pac.realm.uuid

def ownGroups : List epi_uuid_t := subject.pac.group.uuid :: subject.pac.groups.map (·.uuid)

def allGroups : List (Option epi_uuid_t × epi_uuid_t) :=
  (ownGroups subject).map (realmIdOf acl subject, ·) ++
    subject.pac.foreign_groupsets.flatMap fun groupset => groupset.groups.map fun group => (some groupset.realm.uuid, group.uuid)

def groupEntry (list : dacl_complex_entry_type_t) (group : Option epi_uuid_t × epi_uuid_t) : Option dacl_entry_t :=
  dacl_FindMatchingListEntry source none (some group.2) group.1 (acl.complex_entries list)

/-- The permissions of the entries for groups of the caller in a list. -/
def listedPerms (list : dacl_complex_entry_type_t) (groups : List (Option epi_uuid_t × epi_uuid_t)) : List dacl_permset_t :=
  groups.filterMap fun group => (groupEntry source acl list group).map (·.perms)

def isGroupObj : Bool :=
  realmIsDefault acl subject && (ownGroups subject).any fun group => Epi_PrinId_Cmp source group subject.groupObj = 0

def isUserObj : Bool :=
  realmIsDefault acl subject && decide (Epi_PrinId_Cmp source subject.pac.principal.uuid subject.userObj = 0)

/-- An entry with the permissions that the mode bits stand for in their place. -/
def substituted (addlMask : dacl_permset_t) (perms : dacl_permset_t) : dacl_permset_t := perms &&& ~~~DACL_PERM_RWX ||| addlMask

/-- The permissions of a category, behind the mask if that is for it. -/
def behindMask (useMaskObj : Bool) (perms : List dacl_permset_t) : Option dacl_permset_t :=
  (union perms).map (DACL_ACCESS_MASK_ACCESS (maskObjPermMask acl subject) · useMaskObj)

/-- The entry in a list for the caller's user, or for its realm. -/
def userEntry (list : dacl_complex_entry_type_t) : Option dacl_entry_t :=
  dacl_FindMatchingListEntry source (some subject.pac.principal.uuid) none (realmIdOf acl subject) (acl.complex_entries list)

def realmEntry (list : dacl_complex_entry_type_t) : Option dacl_entry_t :=
  dacl_FindMatchingListEntry source none none (some subject.pac.realm.uuid) (acl.complex_entries list)

def permsOf (entryP : Option dacl_entry_t) : List dacl_permset_t := (entryP.map (·.perms)).toList

def simplePerms (type : dacl_simple_entry_type_t) : List dacl_permset_t := ((simpleEntry acl type).map (·.perms)).toList

def groupObjPerms : List dacl_permset_t :=
  (simplePerms acl .groupobj).map fun perms =>
    if (simpleEntry acl .maskobj).isNone then substituted subject.masks.addlGroupMask perms else perms

def userObjCategory : Option dacl_permset_t :=
  if isUserObj source acl subject then
    behindMask acl subject false ((simplePerms acl .userobj).map (substituted subject.masks.addlOwnerMask))
  else none

def userCategory : Option dacl_permset_t :=
  behindMask acl subject true
    (permsOf (userEntry source acl subject .user) ++ permsOf (userEntry source acl subject .user_delegate))

def groupCategory : Option dacl_permset_t :=
  behindMask acl subject true
    ((if isGroupObj source acl subject then groupObjPerms acl subject ++ simplePerms acl .groupobj_delegate else []) ++
      (listedPerms source acl .group (allGroups acl subject) ++ listedPerms source acl .group_delegate (allGroups acl subject)))

def otherObjCategory : Option dacl_permset_t :=
  if realmIsDefault acl subject then
    behindMask acl subject false
      ((simplePerms acl .otherobj).map (substituted subject.masks.addlOtherMask) ++ simplePerms acl .otherobj_delegate)
  else none

def foreignOtherCategory : Option dacl_permset_t :=
  behindMask acl subject true
    (permsOf (realmEntry source acl subject .other) ++ permsOf (realmEntry source acl subject .for_other_delegate))

def anyOtherCategory : Option dacl_permset_t :=
  behindMask acl subject true (simplePerms acl .anyother ++ simplePerms acl .anyother_delegate)

def delegatePerms : dacl_permset_t :=
  first [userObjCategory source acl subject, userCategory source acl subject, groupCategory source acl subject,
    otherObjCategory acl subject, foreignOtherCategory source acl subject, anyOtherCategory acl subject]

variable {source acl subject do_dlg}

/-- What the search through groups has found, in a form that does not depend on how it stops. -/
structure Collected (source : epi_source_id_t) (acl : dacl_t) (do_dlg isGroupObj : Bool)
    (groups : List (Option epi_uuid_t × epi_uuid_t)) (found : GroupMatches) : Prop where
  groupObjEntryP : found.groupObjEntryP = if isGroupObj then simpleEntry acl .groupobj else none
  groupObjDelegateEntryP : found.groupObjDelegateEntryP =
    if do_dlg && isGroupObj then simpleEntry acl .groupobj_delegate else none
  groupKeyMatched : found.groupKeyMatched = !(listedPerms source acl .group groups).isEmpty
  accumulatedGroupPerms : found.accumulatedGroupPerms = join (listedPerms source acl .group groups)
  groupDelegateKeyMatched : found.groupDelegateKeyMatched =
    (do_dlg && !(listedPerms source acl .group_delegate groups).isEmpty)
  accumulatedGroupDelegatePerms : found.accumulatedGroupDelegatePerms =
    if do_dlg then join (listedPerms source acl .group_delegate groups) else 0

theorem Collected.start : Collected source acl do_dlg false [] .none := by
  refine ⟨rfl, ?_, rfl, rfl, ?_, ?_⟩ <;> cases do_dlg <;> rfl

theorem listedPerms_append (list : dacl_complex_entry_type_t) (groups groups' : List (Option epi_uuid_t × epi_uuid_t)) :
    listedPerms source acl list (groups ++ groups') = listedPerms source acl list groups ++ listedPerms source acl list groups' :=
  List.filterMap_append

theorem Collected.snoc_listed {isGroupObj : Bool} {groups : List (Option epi_uuid_t × epi_uuid_t)} {found : GroupMatches}
    (h : Collected source acl do_dlg isGroupObj groups found) (realmIdP : Option epi_uuid_t) (groupId : epi_uuid_t) :
    Collected source acl do_dlg isGroupObj (groups ++ [(realmIdP, groupId)])
      (listedGroup source acl do_dlg realmIdP groupId found) := by
  have hone : ∀ list, listedPerms source acl list [(realmIdP, groupId)] =
      ((dacl_FindMatchingListEntry source none (some groupId) realmIdP (acl.complex_entries list)).map (·.perms)).toList := by
    intro list
    rw [listedPerms, List.filterMap_cons, groupEntry]
    cases dacl_FindMatchingListEntry source none (some groupId) realmIdP (acl.complex_entries list) <;> rfl
  unfold listedGroup
  cases hregular : dacl_FindMatchingListEntry source none (some groupId) realmIdP (acl.complex_entries .group) <;>
  cases hdelegate : dacl_FindMatchingListEntry source none (some groupId) realmIdP (acl.complex_entries .group_delegate) <;>
  cases do_dlg <;>
  · constructor <;>
    simp [listedPerms_append, hone, hregular, hdelegate, join_append, h.groupObjEntryP, h.groupObjDelegateEntryP,
      h.groupKeyMatched, h.accumulatedGroupPerms, h.groupDelegateKeyMatched, h.accumulatedGroupDelegatePerms]

theorem Collected.snoc_local {wasGroupObj : Bool} {groups : List (Option epi_uuid_t × epi_uuid_t)} {found : GroupMatches}
    (h : Collected source acl do_dlg wasGroupObj groups found) (subject : Subject) (groupId : epi_uuid_t) :
    Collected source acl do_dlg
      (wasGroupObj || realmIsDefault acl subject && decide (Epi_PrinId_Cmp source groupId subject.groupObj = 0))
      (groups ++ [(realmIdOf acl subject, groupId)])
      (localGroup source acl do_dlg (realmIsDefault acl subject) subject.pac.realm.uuid subject.groupObj groupId found) := by
  refine Collected.snoc_listed ?_ _ groupId
  have his : (Epi_PrinId_Cmp source groupId subject.groupObj = 0 ∧ realmIsDefault acl subject = true) ↔
      (realmIsDefault acl subject && decide (Epi_PrinId_Cmp source groupId subject.groupObj = 0)) = true := by
    rw [Bool.and_eq_true, decide_eq_true_eq, and_comm]
  simp only [his]
  generalize (realmIsDefault acl subject && decide (Epi_PrinId_Cmp source groupId subject.groupObj = 0)) = is
  obtain ⟨hobj, hdelegate, hmatched, hperms, hdelegateMatched, hdelegatePerms⟩ := h
  cases is with
  | false => simpa using Collected.mk hobj hdelegate hmatched hperms hdelegateMatched hdelegatePerms
  | true =>
    cases hregular : found.groupObjEntryP <;> cases hdeleg : found.groupObjDelegateEntryP <;> cases do_dlg <;>
    cases wasGroupObj <;>
    · constructor <;> simp_all

/-- The search through groups does not stop before it has all: there is a mask, or the owning group's entry does not match,
or nothing else does. -/
def Searched (source : epi_source_id_t) (acl : dacl_t) (isGroupObj : Bool) (groups : List (Option epi_uuid_t × epi_uuid_t)) : Prop :=
  (simpleEntry acl .maskobj).isSome = true ∨ isGroupObj = false ∨ simpleEntry acl .groupobj = none ∨
    listedPerms source acl .group groups = [] ∧ listedPerms source acl .group_delegate groups = []

theorem Collected.stopped {wasGroupObj : Bool} (isGroupObj : Bool) {groups more : List (Option epi_uuid_t × epi_uuid_t)}
    {found : GroupMatches} (h : Collected source acl do_dlg wasGroupObj groups found)
    (hsearched : Searched source acl (wasGroupObj || isGroupObj) (groups ++ more))
    (hstops : ¬ (found.groupObjEntryP = none ∨ (simpleEntry acl .maskobj).isSome = true)) :
    Collected source acl do_dlg (wasGroupObj || isGroupObj) (groups ++ more) found := by
  rw [h.groupObjEntryP, not_or] at hstops
  cases wasGroupObj with
  | false => exact absurd rfl hstops.1
  | true =>
    obtain hmask | hnot | hnone | ⟨hregular, hdelegate⟩ := hsearched
    · exact absurd hmask hstops.2
    · exact absurd hnot (by simp)
    · exact absurd ((if_pos rfl).trans hnone) hstops.1
    · have hbefore := List.append_eq_nil_iff.mp ((listedPerms_append .group groups more).symm.trans hregular)
      have hbefore' := List.append_eq_nil_iff.mp ((listedPerms_append .group_delegate groups more).symm.trans hdelegate)
      obtain ⟨hobj, hobjDelegate, hmatched, hperms, hdelegateMatched, hdelegatePerms⟩ := h
      rw [hbefore.1] at hmatched hperms
      rw [hbefore'.1] at hdelegateMatched hdelegatePerms
      exact ⟨hobj, hobjDelegate, by rw [hmatched, hregular], by rw [hperms, hregular], by rw [hdelegateMatched, hdelegate],
        by rw [hdelegatePerms, hdelegate]⟩

theorem Collected.accumulate_local {wasGroupObj : Bool} {groups : List (Option epi_uuid_t × epi_uuid_t)} {found : GroupMatches}
    {more : List (sec_id_t epi_uuid_t)} (h : Collected source acl do_dlg wasGroupObj groups found) (subject : Subject)
    (hsearched : Searched source acl
      (wasGroupObj ||
        realmIsDefault acl subject && more.any fun group => Epi_PrinId_Cmp source group.uuid subject.groupObj = 0)
      (groups ++ more.map fun group => (realmIdOf acl subject, group.uuid))) :
    Collected source acl do_dlg
      (wasGroupObj ||
        realmIsDefault acl subject && more.any fun group => Epi_PrinId_Cmp source group.uuid subject.groupObj = 0)
      (groups ++ more.map fun group => (realmIdOf acl subject, group.uuid))
      (accumulate (simpleEntry acl .maskobj).isSome
        (localGroup source acl do_dlg (realmIsDefault acl subject) subject.pac.realm.uuid subject.groupObj) more found) := by
  induction more generalizing wasGroupObj groups found with
  | nil => simpa [accumulate] using h
  | cons group more ih =>
    rw [accumulate]
    split_ifs with hon
    · have hnext := h.snoc_local subject group.uuid
      have hflag : (wasGroupObj || realmIsDefault acl subject && (group :: more).any fun group =>
          Epi_PrinId_Cmp source group.uuid subject.groupObj = 0) =
          (wasGroupObj || realmIsDefault acl subject && decide (Epi_PrinId_Cmp source group.uuid subject.groupObj = 0) ||
            realmIsDefault acl subject && more.any fun group => Epi_PrinId_Cmp source group.uuid subject.groupObj = 0) := by
        rw [List.any_cons, Bool.and_or_distrib_left, Bool.or_assoc]
      rw [hflag, List.map_cons, List.append_cons] at hsearched ⊢
      exact ih hnext hsearched
    · exact h.stopped _ hsearched hon

theorem Collected.accumulate_listed {isGroupObj : Bool} {groups : List (Option epi_uuid_t × epi_uuid_t)} {found : GroupMatches}
    {more : List (sec_id_t epi_uuid_t)} (h : Collected source acl do_dlg isGroupObj groups found) (realmIdP : Option epi_uuid_t)
    (hsearched : Searched source acl isGroupObj (groups ++ more.map fun group => (realmIdP, group.uuid))) :
    Collected source acl do_dlg isGroupObj (groups ++ more.map fun group => (realmIdP, group.uuid))
      (accumulate (simpleEntry acl .maskobj).isSome (listedGroup source acl do_dlg realmIdP) more found) := by
  induction more generalizing groups found with
  | nil => simpa [accumulate] using h
  | cons group more ih =>
    rw [accumulate]
    split_ifs with hon
    · rw [List.map_cons, List.append_cons] at hsearched ⊢
      exact ih (h.snoc_listed realmIdP group.uuid) hsearched
    · simpa using h.stopped false (by simpa using hsearched) hon

theorem Searched.of_append {isGroupObj : Bool} {groups more : List (Option epi_uuid_t × epi_uuid_t)}
    (hsearched : Searched source acl isGroupObj (groups ++ more)) : Searched source acl isGroupObj groups := by
  refine hsearched.imp_right (.imp_right (.imp_right fun h => ?_))
  rw [listedPerms_append, listedPerms_append, List.append_eq_nil_iff, List.append_eq_nil_iff] at h
  exact ⟨h.1.1, h.2.1⟩

theorem Collected.accumulate_foreign {isGroupObj : Bool} {groups : List (Option epi_uuid_t × epi_uuid_t)} {found : GroupMatches}
    {groupsets : List (sec_id_foreign_groupset_t epi_uuid_t)} (h : Collected source acl do_dlg isGroupObj groups found)
    (hsearched : Searched source acl isGroupObj (groups ++ groupsets.flatMap fun groupset =>
      groupset.groups.map fun group => (some groupset.realm.uuid, group.uuid))) :
    Collected source acl do_dlg isGroupObj
      (groups ++ groupsets.flatMap fun groupset => groupset.groups.map fun group => (some groupset.realm.uuid, group.uuid))
      (groupsets.foldl (fun found groupset => accumulate (simpleEntry acl .maskobj).isSome
        (listedGroup source acl do_dlg (some groupset.realm.uuid)) groupset.groups found) found) := by
  induction groupsets generalizing groups found with
  | nil => simpa using h
  | cons groupset groupsets ih =>
    rw [List.flatMap_cons, ← List.append_assoc] at hsearched ⊢
    exact ih (h.accumulate_listed (some groupset.realm.uuid) hsearched.of_append) hsearched

theorem groupMatches_collected (do_dlg : Bool)
    (hsearched : Searched source acl (isGroupObj source acl subject) (allGroups acl subject)) :
    Collected source acl do_dlg (isGroupObj source acl subject) (allGroups acl subject) (groupMatches source acl subject do_dlg) := by
  have hfirst : Collected source acl do_dlg _ _ _ := Collected.start.snoc_local subject subject.pac.group.uuid
  have hflag : isGroupObj source acl subject =
      (false || realmIsDefault acl subject && decide (Epi_PrinId_Cmp source subject.pac.group.uuid subject.groupObj = 0) ||
        realmIsDefault acl subject &&
          subject.pac.groups.any fun group => Epi_PrinId_Cmp source group.uuid subject.groupObj = 0) := by
    rw [isGroupObj, ownGroups, List.any_cons, List.any_map, Bool.and_or_distrib_left, Bool.false_or]
    rfl
  have hgroups : [] ++ [(realmIdOf acl subject, subject.pac.group.uuid)] ++
      (subject.pac.groups.map fun group => (realmIdOf acl subject, group.uuid)) =
      (ownGroups subject).map (realmIdOf acl subject, ·) := by
    simp [ownGroups]
  rw [allGroups] at hsearched ⊢
  have hlocal := hfirst.accumulate_local subject (by rw [← hflag, hgroups]; exact hsearched.of_append)
  rw [← hflag, hgroups] at hlocal
  exact hlocal.accumulate_foreign hsearched

end dce.dacl
