import Dce.Lib.BitSets
import Dce.Sec.Identity

open lib

namespace dce.dacl

/-- `epi_uuid_t`, as its bytes lie in memory. -/
structure epi_uuid_t where
  bytes : List Byte
  length : bytes.length = 16
  deriving DecidableEq

/-- `epi_principal_id_t` where full identifiers are used. -/
abbrev epi_principal_id_t := epi_uuid_t

/-- `sizeof(epi_uuid_t)` and `sizeof(uuid_t)`. -/
def sizeof_uuid : ℕ := 16

structure epi_uuid_foreign_t where
  id : epi_uuid_t
  realm : epi_uuid_t
  deriving DecidableEq

abbrev dacl_permset_t := BitVec 32

def dacl_perm_read : dacl_permset_t := 0x01
def dacl_perm_write : dacl_permset_t := 0x02
def dacl_perm_execute : dacl_permset_t := 0x04
def dacl_perm_control : dacl_permset_t := 0x08
def dacl_perm_insert : dacl_permset_t := 0x10
def dacl_perm_delete : dacl_permset_t := 0x20

def DACL_PERM_RWX : dacl_permset_t := dacl_perm_read ||| dacl_perm_write ||| dacl_perm_execute

structure dacl_format_label_t where
  miscShorts : BitVec 16 × BitVec 16 × BitVec 16
  charField : Byte
  deriving DecidableEq

/-- `dacl_extended_info_t`; `numberBytes` is the length of the data at `infoP`. -/
structure dacl_extended_info_t where
  extensionType : epi_uuid_t
  formatLabel : dacl_format_label_t
  infoP : List Byte
  deriving DecidableEq

/-- The types of complex entries, with what their entries hold in `entry_info`. -/
inductive dacl_entry_info where
  | user (id : epi_uuid_t)
  | group (id : epi_uuid_t)
  | foreign_user (foreign_id : epi_uuid_foreign_t)
  | foreign_group (foreign_id : epi_uuid_foreign_t)
  | foreign_other (id : epi_uuid_t)
  | extended (extended_info : dacl_extended_info_t)
  | user_delegate (id : epi_uuid_t)
  | group_delegate (id : epi_uuid_t)
  | foreign_other_delegate (id : epi_uuid_t)
  | foreign_user_delegate (foreign_id : epi_uuid_foreign_t)
  | foreign_group_delegate (foreign_id : epi_uuid_foreign_t)
  deriving DecidableEq

structure dacl_entry_t where
  perms : dacl_permset_t
  entry_info : dacl_entry_info
  deriving DecidableEq

structure dacl_simple_entry_t where
  is_entry_good : BitVec 32
  perms : dacl_permset_t
  deriving DecidableEq

inductive dacl_simple_entry_type_t where
  | userobj
  | groupobj
  | otherobj
  | maskobj
  | anyother
  | userobj_delegate
  | groupobj_delegate
  | otherobj_delegate
  | anyother_delegate
  | unauthmask
  deriving DecidableEq

inductive dacl_complex_entry_type_t where
  | user
  | group
  | user_delegate
  | group_delegate
  | for_other_delegate
  | other
  deriving DecidableEq

structure dacl_t where
  mgr_type_tag : epi_uuid_t
  default_realm : epi_uuid_t
  num_entries : BitVec 32
  simple_entries : dacl_simple_entry_type_t → dacl_simple_entry_t
  complex_entries : dacl_complex_entry_type_t → List dacl_entry_t
  flags : BitVec 32

/-- The codes of the access checks. -/
inductive dacl_status where
  | DACL_SUCCESS
  | DACL_ERROR_ACCESS_DENIED
  | DACL_ERROR_ACCESS_EXPLICITLY_DENIED
  | DACL_ERROR_MGR_PARAMETER_ERROR
  deriving DecidableEq

open lib dce.sec

/-- `bcmp` on the first `n` bytes of two identifiers. -/
def bcmp (b1 b2 : epi_uuid_t) (n : ℕ) : ℕ := if b1.bytes.take n = b2.bytes.take n then 0 else 1

/-- `epi_source_id_t`: how much of an identifier is known where the access check runs. -/
inductive epi_source_id_t where
  /-- `EPI_SOURCE_IDS_ARE_32BITS`. -/
  | word
  | uuid
  deriving DecidableEq

/-- `sizeof(epi_source_id_t)`. -/
def epi_source_id_t.sizeof : epi_source_id_t → ℕ
  | .word => 4
  | .uuid => 16

def S_IREAD : BitVec 32 := 0o400
def S_IWRITE : BitVec 32 := 0o200
def S_IEXEC : BitVec 32 := 0o100

def dacl_AddPermBitsToOnePermset (permBits : BitVec 32) (thePermset : dacl_permset_t) : dacl_permset_t :=
  let thePermset := if permBits &&& S_IREAD ≠ 0 then thePermset ||| dacl_perm_read else thePermset
  let thePermset := if permBits &&& S_IWRITE ≠ 0 then thePermset ||| dacl_perm_write else thePermset
  if permBits &&& S_IEXEC ≠ 0 then thePermset ||| dacl_perm_execute else thePermset

/-- What the mode bits add for the three classes. -/
structure AddlMasks where
  addlOwnerMask : dacl_permset_t
  addlGroupMask : dacl_permset_t
  addlOtherMask : dacl_permset_t

/-- `dacl_AddPermBitsToPermsets`, from empty sets. -/
def dacl_AddPermBitsToPermsets (permBits : BitVec 32) : AddlMasks where
  addlOwnerMask := dacl_AddPermBitsToOnePermset permBits 0
  addlGroupMask := dacl_AddPermBitsToOnePermset (permBits <<< 3) 0
  addlOtherMask := dacl_AddPermBitsToOnePermset (permBits <<< 6) 0

/-- `dacl_epi_CheckAccessParams`. The ACL and the requested permissions are always there. -/
def dacl_epi_CheckAccessParams (permBitsP : Option (BitVec 32)) (userObjP groupObjP : Option epi_principal_id_t) : Option dacl_status :=
  if userObjP = none ∨ groupObjP = none then some .DACL_ERROR_MGR_PARAMETER_ERROR
  else if permBitsP = none then some .DACL_ERROR_MGR_PARAMETER_ERROR
  else none

def DACL_ACCESS_MASK_WRITE_RIGHTS (permSet : dacl_permset_t) : dacl_permset_t :=
  permSet &&& if permSet &&& dacl_perm_write ≠ 0 then .allOnes 32 else ~~~(dacl_perm_insert ||| dacl_perm_delete)

def DACL_ACCESS_MASK_ACCESS (maskObjPermMask permSet : dacl_permset_t) (useMaskObj : Bool) : dacl_permset_t :=
  DACL_ACCESS_MASK_WRITE_RIGHTS (permSet &&& if useMaskObj then maskObjPermMask else .allOnes 32)

variable (source : epi_source_id_t)

def Epi_PrinId_Cmp (idBlob1 idBlob2 : epi_uuid_t) : ℕ := bcmp idBlob1 idBlob2 source.sizeof

/-- `dacl_FindMatchingListEntry`. The list of a null pointer is empty. -/
def dacl_FindMatchingListEntry (userIdP groupIdP realmIdP : Option epi_uuid_t) (entryListP : List dacl_entry_t) : Option dacl_entry_t :=
  entryListP.find? fun thisEntry =>
    match thisEntry.entry_info with
    | .user id | .user_delegate id =>
      match userIdP, realmIdP with
      | some userId, none => Epi_PrinId_Cmp source userId id = 0
      | _, _ => false
    | .group id | .group_delegate id =>
      match groupIdP, realmIdP with
      | some groupId, none => Epi_PrinId_Cmp source groupId id = 0
      | _, _ => false
    | .foreign_other id | .foreign_other_delegate id =>
      match realmIdP with
      | some realmId => Epi_PrinId_Cmp source realmId id = 0
      | none => false
    | .foreign_user foreign_id | .foreign_user_delegate foreign_id =>
      match userIdP, realmIdP with
      | some userId, some realmId =>
        Epi_PrinId_Cmp source userId foreign_id.id = 0 ∧ bcmp realmId foreign_id.realm sizeof_uuid = 0
      | _, _ => false
    | .foreign_group foreign_id | .foreign_group_delegate foreign_id =>
      match groupIdP, realmIdP with
      | some groupId, some realmId =>
        Epi_PrinId_Cmp source groupId foreign_id.id = 0 ∧ bcmp realmId foreign_id.realm sizeof_uuid = 0
      | _, _ => false
    | .extended _ => false

variable (acl : dacl_t)

/-- The simple entry of a type, if the ACL has one. -/
def simpleEntry (type : dacl_simple_entry_type_t) : Option dacl_simple_entry_t :=
  if (acl.simple_entries type).is_entry_good = 1 then some (acl.simple_entries type) else none

/-- What the search through the groups of a PAC has found so far. -/
structure GroupMatches where
  groupObjEntryP : Option dacl_simple_entry_t
  groupObjDelegateEntryP : Option dacl_simple_entry_t
  groupKeyMatched : Bool
  groupDelegateKeyMatched : Bool
  accumulatedGroupPerms : dacl_permset_t
  accumulatedGroupDelegatePerms : dacl_permset_t

def GroupMatches.none : GroupMatches := ⟨.none, .none, false, false, 0, 0⟩

/-- One group, of the given realm if that is not the default one, against the list of groups and, for a delegate, against
that of group delegates. -/
def listedGroup (do_dlg : Bool) (realmIdP : Option epi_uuid_t) (groupId : epi_uuid_t) (found : GroupMatches) : GroupMatches :=
  let found :=
    match dacl_FindMatchingListEntry source none (some groupId) realmIdP (acl.complex_entries .group) with
    | some entry => { found with accumulatedGroupPerms := found.accumulatedGroupPerms ||| entry.perms, groupKeyMatched := true }
    | none => found
  if do_dlg then
    match dacl_FindMatchingListEntry source none (some groupId) realmIdP (acl.complex_entries .group_delegate) with
    | some entry =>
      { found with
        accumulatedGroupDelegatePerms := found.accumulatedGroupDelegatePerms ||| entry.perms
        groupDelegateKeyMatched := true }
    | none => found
  else found

/-- A group of the PAC's own realm: the owning group first, then the lists. -/
def localGroup (do_dlg realmIsDefault : Bool) (realmId : epi_uuid_t) (groupObj groupId : epi_uuid_t) (found : GroupMatches) : GroupMatches :=
  let isGroupObj := Epi_PrinId_Cmp source groupId groupObj = 0 ∧ realmIsDefault
  let found :=
    if found.groupObjEntryP = none ∧ isGroupObj then { found with groupObjEntryP := simpleEntry acl .groupobj } else found
  let found :=
    if do_dlg ∧ found.groupObjDelegateEntryP = none ∧ isGroupObj then
      { found with groupObjDelegateEntryP := simpleEntry acl .groupobj_delegate }
    else found
  listedGroup source acl do_dlg (if realmIsDefault then none else some realmId) groupId found

/-- A loop over groups, as long as `DACL_ACCESS_ACCUMULATE_GROUP_PERMS`. -/
def accumulate (maskObjPresent : Bool) (check : epi_uuid_t → GroupMatches → GroupMatches) : List (sec_id_t epi_uuid_t) → GroupMatches → GroupMatches
  | [], found => found
  | group :: groups, found =>
    if found.groupObjEntryP = none ∨ maskObjPresent then accumulate maskObjPresent check groups (check group.uuid found)
    else found

/-- All entries that match a PAC, in the order in which they are compared. -/
structure EntryMatches extends GroupMatches where
  userObjEntryP : Option dacl_simple_entry_t
  userEntryP : Option dacl_entry_t
  userDelegateEntryP : Option dacl_entry_t
  otherEntryP : Option dacl_entry_t
  otherDelegateEntryP : Option dacl_entry_t

/-- What the check reads from its caller: the PAC's fields, the owner, the group and the mode bits. -/
structure Subject where
  pac : sec_id_pa_t epi_uuid_t
  userObj : epi_principal_id_t
  groupObj : epi_principal_id_t
  masks : AddlMasks

variable (subject : Subject) (do_dlg : Bool)

theorem zeroUuid_length : (List.replicate 16 (0 : Byte)).length = 16 := rfl

def zeroUuid : epi_uuid_t := ⟨List.replicate 16 0, zeroUuid_length⟩

def realmIsDefault : Bool :=
  bcmp subject.pac.realm.uuid zeroUuid sizeof_uuid = 0 ∨ bcmp subject.pac.realm.uuid acl.default_realm sizeof_uuid = 0

def groupMatches : GroupMatches :=
  let maskObjPresent := (simpleEntry acl .maskobj).isSome
  let check := localGroup source acl do_dlg (realmIsDefault acl subject) subject.pac.realm.uuid subject.groupObj
  let found := accumulate maskObjPresent check subject.pac.groups (check subject.pac.group.uuid .none)
  subject.pac.foreign_groupsets.foldl
    (fun found groupset =>
      accumulate maskObjPresent (listedGroup source acl do_dlg (some groupset.realm.uuid)) groupset.groups found)
    found

def entryMatches : EntryMatches :=
  let realmId := subject.pac.realm.uuid
  let realmIdP := if realmIsDefault acl subject then none else some realmId
  let nothing : EntryMatches := ⟨.none, none, none, none, none, none⟩
  if Epi_PrinId_Cmp source subject.pac.principal.uuid subject.userObj = 0 ∧ realmIsDefault acl subject ∧
      (simpleEntry acl .userobj).isSome then
    { nothing with userObjEntryP := simpleEntry acl .userobj }
  else
    let userId := subject.pac.principal.uuid
    let userEntryP := dacl_FindMatchingListEntry source (some userId) none realmIdP (acl.complex_entries .user)
    let userDelegateEntryP :=
      if do_dlg then dacl_FindMatchingListEntry source (some userId) none realmIdP (acl.complex_entries .user_delegate)
      else none
    if userEntryP = none ∧ (!do_dlg ∨ userDelegateEntryP = none) then
      let found := groupMatches source acl subject do_dlg
      if found.groupObjEntryP = none ∧ !found.groupKeyMatched ∧
          (!do_dlg ∨ found.groupObjDelegateEntryP = none ∧ !found.groupDelegateKeyMatched) then
        { nothing with
          toGroupMatches := found
          otherEntryP := dacl_FindMatchingListEntry source none none (some realmId) (acl.complex_entries .other)
          otherDelegateEntryP :=
            if do_dlg then
              dacl_FindMatchingListEntry source none none (some realmId) (acl.complex_entries .for_other_delegate)
            else none }
      else { nothing with toGroupMatches := found }
    else { nothing with userEntryP, userDelegateEntryP }

def maskObjPermMask : dacl_permset_t :=
  match simpleEntry acl .maskobj with
  | some mask => mask.perms &&& ~~~DACL_PERM_RWX ||| subject.masks.addlGroupMask
  | none => .allOnes 32

/-- What the matching entries grant the first PAC of a chain, and whether one for a user did. -/
def initiatorAccess (found : EntryMatches) : dacl_permset_t × Bool :=
  let mask := DACL_ACCESS_MASK_ACCESS (maskObjPermMask acl subject)
  match found.userObjEntryP, found.userEntryP, found.groupObjEntryP with
  | some userObjEntry, _, _ => (mask (userObjEntry.perms &&& ~~~DACL_PERM_RWX ||| subject.masks.addlOwnerMask) false, true)
  | none, some userEntry, _ => (mask userEntry.perms true, true)
  | none, none, some groupObjEntry =>
    if (simpleEntry acl .maskobj).isNone then
      (mask (groupObjEntry.perms &&& ~~~DACL_PERM_RWX ||| subject.masks.addlGroupMask) true, false)
    else (mask (groupObjEntry.perms ||| found.accumulatedGroupPerms) true, false)
  | none, none, none =>
    if found.groupKeyMatched then (mask found.accumulatedGroupPerms true, false)
    else
      match simpleEntry acl .otherobj, realmIsDefault acl subject, found.otherEntryP, simpleEntry acl .anyother with
      | some otherObjEntry, true, _, _ =>
        (mask (otherObjEntry.perms &&& ~~~DACL_PERM_RWX ||| subject.masks.addlOtherMask) false, false)
      | _, _, some otherEntry, _ => (mask otherEntry.perms true, false)
      | _, _, none, some anyOtherEntry => (mask anyOtherEntry.perms true, false)
      | _, _, none, none => (0, false)

/-- What the matching entries grant a delegate, and whether one for a user did. -/
def delegateAccess (found : EntryMatches) : dacl_permset_t × Bool :=
  let mask := DACL_ACCESS_MASK_ACCESS (maskObjPermMask acl subject)
  let granted (entryP : Option dacl_entry_t) : dacl_permset_t := (entryP.map (·.perms)).getD 0
  match found.userObjEntryP with
  -- the entry for the owner as a delegate is not looked at
  | some userObjEntry => (mask (userObjEntry.perms &&& ~~~DACL_PERM_RWX ||| subject.masks.addlOwnerMask) false, true)
  | none =>
    if found.userEntryP.isSome ∨ found.userDelegateEntryP.isSome then
      (mask (granted found.userEntryP ||| granted found.userDelegateEntryP) true, true)
    else if found.groupObjEntryP.isSome ∨ found.groupObjDelegateEntryP.isSome ∨ found.groupKeyMatched ∨
        found.groupDelegateKeyMatched then
      let groupObjPerms :=
        match found.groupObjEntryP with
        | some groupObjEntry =>
          if (simpleEntry acl .maskobj).isNone then groupObjEntry.perms &&& ~~~DACL_PERM_RWX ||| subject.masks.addlGroupMask
          else groupObjEntry.perms
        | none => 0
      let groupObjDelegatePerms := (found.groupObjDelegateEntryP.map (·.perms)).getD 0
      let groupPerms := if found.groupKeyMatched then found.accumulatedGroupPerms else 0
      let groupDelegatePerms := if found.groupDelegateKeyMatched then found.accumulatedGroupDelegatePerms else 0
      (mask (groupObjPerms ||| groupObjDelegatePerms ||| groupPerms ||| groupDelegatePerms) true, false)
    else if realmIsDefault acl subject ∧ ((simpleEntry acl .otherobj).isSome ∨ (simpleEntry acl .otherobj_delegate).isSome) then
      let otherObjPerms :=
        match simpleEntry acl .otherobj with
        | some otherObjEntry => otherObjEntry.perms &&& ~~~DACL_PERM_RWX ||| subject.masks.addlOtherMask
        | none => 0
      -- the pointer for the delegates' entry is set to the entry for others
      let otherObjDelegatePerms :=
        if (simpleEntry acl .otherobj_delegate).isSome then (acl.simple_entries .otherobj).perms else 0
      (mask (otherObjPerms ||| otherObjDelegatePerms) false, false)
    else
      -- here the delegates' entry takes the place of the other one
      match found.otherDelegateEntryP, found.otherEntryP, simpleEntry acl .anyother_delegate, simpleEntry acl .anyother with
      | some entry, _, _, _ => (mask entry.perms true, false)
      | none, some entry, _, _ => (mask entry.perms true, false)
      | none, none, some entry, _ => (mask entry.perms true, false)
      | none, none, none, some entry => (mask entry.perms true, false)
      | none, none, none, none => (0, false)

/-- What `dacl_epi_DetermineAccessAllowed` returns and leaves in `*accessAllowedP`. -/
structure Access where
  rtnVal : dacl_status
  accessAllowed : dacl_permset_t
  deriving DecidableEq

/-- `dacl_epi_DetermineAccessAllowed`, for the fields of a PAC. Unauthenticated users come in as authenticated ones, and
`isAuthn` is not read. -/
def dacl_epi_DetermineAccessAllowed (permBitsP : Option (BitVec 32)) (accessRequested : dacl_permset_t) (pac : sec_id_pa_t epi_uuid_t)
    (userObjP groupObjP : Option epi_principal_id_t) (_isAuthn do_dlg : Bool) : Access :=
  match dacl_epi_CheckAccessParams permBitsP userObjP groupObjP, permBitsP, userObjP, groupObjP with
  | none, some permBits, some userObj, some groupObj =>
    let subject : Subject := ⟨pac, userObj, groupObj, dacl_AddPermBitsToPermsets permBits⟩
    let found := entryMatches source acl subject do_dlg
    let unauthPermMask : dacl_permset_t := .allOnes 32
    let (accessGranted, userKeyMatched) :=
      if !do_dlg then initiatorAccess acl subject found else delegateAccess acl subject found
    let accessGranted := accessGranted &&& unauthPermMask
    if accessRequested &&& accessGranted = accessRequested then ⟨.DACL_SUCCESS, accessGranted⟩
    else if userKeyMatched then ⟨.DACL_ERROR_ACCESS_EXPLICITLY_DENIED, accessGranted⟩
    else ⟨.DACL_ERROR_ACCESS_DENIED, accessGranted⟩
  | some auxRtnVal, _, _, _ => ⟨auxRtnVal, 0⟩
  | none, _, _, _ => ⟨.DACL_ERROR_ACCESS_DENIED, 0⟩

end dce.dacl
