import Dce.Dacl.Access
import Mathlib.Data.List.Find

open lib dce.sec

namespace dce.dacl

/-- What the loop of `dacl_ChangeRealm` makes of the type and the identifiers of an entry. -/
def changedInfo (oldDefaultRealm ownerRealm : epi_uuid_t) : dacl_entry_info → dacl_entry_info
  -- this entry is no longer local
  | .user id => .foreign_user ⟨id, oldDefaultRealm⟩
  | .group id => .foreign_group ⟨id, oldDefaultRealm⟩
  | .user_delegate id => .foreign_user_delegate ⟨id, oldDefaultRealm⟩
  | .group_delegate id => .foreign_group_delegate ⟨id, oldDefaultRealm⟩
  -- these entries may be no longer foreign
  | .foreign_user foreign_id =>
    if bcmp ownerRealm foreign_id.realm sizeof_uuid = 0 then .user foreign_id.id else .foreign_user foreign_id
  | .foreign_group foreign_id =>
    if bcmp ownerRealm foreign_id.realm sizeof_uuid = 0 then .group foreign_id.id else .foreign_group foreign_id
  | .foreign_user_delegate foreign_id =>
    if bcmp ownerRealm foreign_id.realm sizeof_uuid = 0 then .user_delegate foreign_id.id else .foreign_user_delegate foreign_id
  | .foreign_group_delegate foreign_id =>
    if bcmp ownerRealm foreign_id.realm sizeof_uuid = 0 then .group_delegate foreign_id.id else .foreign_group_delegate foreign_id
  | .foreign_other id => .foreign_other id
  | .foreign_other_delegate id => .foreign_other_delegate id
  | .extended extended_info => .extended extended_info

def changedEntry (oldDefaultRealm ownerRealm : epi_uuid_t) (entry : dacl_entry_t) : dacl_entry_t :=
  { entry with entry_info := changedInfo oldDefaultRealm ownerRealm entry.entry_info }

/-- `dacl_ChangeRealm`, for pointers that are not null. -/
def dacl_ChangeRealm (acl : dacl_t) (ownerRealm : epi_uuid_t) : dacl_t :=
  { acl with
    default_realm := ownerRealm
    complex_entries := fun j => (acl.complex_entries j).map (changedEntry acl.default_realm ownerRealm) }

def dacl_entry_info.list : dacl_entry_info → dacl_complex_entry_type_t
  | .user _ | .foreign_user _ => .user
  | .group _ | .foreign_group _ => .group
  | .user_delegate _ | .foreign_user_delegate _ => .user_delegate
  | .group_delegate _ | .foreign_group_delegate _ => .group_delegate
  | .foreign_other_delegate _ => .for_other_delegate
  | .foreign_other _ | .extended _ => .other

def Placed (acl : dacl_t) : Prop := ∀ list, ∀ entry ∈ acl.complex_entries list, entry.entry_info.list = list

/-- A user or a group, in a realm. -/
inductive Identity where
  | user (realm id : epi_uuid_t)
  | group (realm id : epi_uuid_t)
  deriving DecidableEq

/-- Whose entry one is, and whether it is for it as a delegate. An entry without a realm is for the default one. -/
def dacl_entry_info.identity (default_realm : epi_uuid_t) : dacl_entry_info → Option (Identity × Bool)
  | .user id => some (.user default_realm id, false)
  | .group id => some (.group default_realm id, false)
  | .user_delegate id => some (.user default_realm id, true)
  | .group_delegate id => some (.group default_realm id, true)
  | .foreign_user foreign_id => some (.user foreign_id.realm foreign_id.id, false)
  | .foreign_group foreign_id => some (.group foreign_id.realm foreign_id.id, false)
  | .foreign_user_delegate foreign_id => some (.user foreign_id.realm foreign_id.id, true)
  | .foreign_group_delegate foreign_id => some (.group foreign_id.realm foreign_id.id, true)
  | .foreign_other _ | .foreign_other_delegate _ | .extended _ => none

/-- The realm of an entry that names one with a user or a group. -/
def dacl_entry_info.foreignRealm : dacl_entry_info → Option epi_uuid_t
  | .foreign_user foreign_id | .foreign_group foreign_id | .foreign_user_delegate foreign_id
  | .foreign_group_delegate foreign_id => some foreign_id.realm
  | _ => none

def dacl_entry_info.IsLocal : dacl_entry_info → Prop
  | .user _ | .group _ | .user_delegate _ | .group_delegate _ => True
  | _ => False

def NoOwnForeign (acl : dacl_t) : Prop :=
  ∀ list, ∀ entry ∈ acl.complex_entries list, entry.entry_info.foreignRealm ≠ some acl.default_realm

/-- The entry for a user, or a group, of a realm. The default realm is not named. -/
def entryOf (source : epi_source_id_t) (acl : dacl_t) (list : dacl_complex_entry_type_t) (realm : epi_uuid_t)
    (userIdP groupIdP : Option epi_uuid_t) : Option dacl_entry_t :=
  dacl_FindMatchingListEntry source userIdP groupIdP
    (if bcmp realm acl.default_realm sizeof_uuid = 0 then none else some realm) (acl.complex_entries list)

/-- What an entry gives, and whether it does so to delegates. -/
def dacl_entry_t.grant (entry : dacl_entry_t) : dacl_permset_t × Bool :=
  (entry.perms, match entry.entry_info with
    | .user_delegate _ | .group_delegate _ | .foreign_other_delegate _ | .foreign_user_delegate _ | .foreign_group_delegate _ => true
    | _ => false)

variable {source : epi_source_id_t} {acl : dacl_t} {realm ownerRealm old : epi_uuid_t}

theorem bcmp_uuid_iff {a b : epi_uuid_t} : bcmp a b sizeof_uuid = 0 ↔ a = b := by
  obtain ⟨bytes, hlength⟩ := a
  obtain ⟨bytes', hlength'⟩ := b
  have hall : ∀ l : List Byte, l.length = 16 → l.take sizeof_uuid = l := fun l h => List.take_of_length_le h.le
  simp only [bcmp, hall bytes hlength, hall bytes' hlength', epi_uuid_t.mk.injEq]
  split_ifs with h <;> simp [h]

variable {list : dacl_complex_entry_type_t} {info : dacl_entry_info}

theorem changedInfo_identity (hown : info.foreignRealm ≠ some old) :
    (changedInfo old ownerRealm info).identity ownerRealm = info.identity old := by
  cases info with
  | foreign_user foreign_id =>
    simp only [changedInfo, bcmp_uuid_iff]
    split_ifs with h
    · rw [h]; rfl
    · rfl
  | foreign_group foreign_id =>
    simp only [changedInfo, bcmp_uuid_iff]
    split_ifs with h
    · rw [h]; rfl
    · rfl
  | foreign_user_delegate foreign_id =>
    simp only [changedInfo, bcmp_uuid_iff]
    split_ifs with h
    · rw [h]; rfl
    · rfl
  | foreign_group_delegate foreign_id =>
    simp only [changedInfo, bcmp_uuid_iff]
    split_ifs with h
    · rw [h]; rfl
    · rfl
  | _ => rfl

theorem changedInfo_list (info : dacl_entry_info) : (changedInfo old ownerRealm info).list = info.list := by
  cases info <;> unfold changedInfo <;> first | rfl | (dsimp only; split_ifs <;> rfl)

theorem changedEntry_grant (entry : dacl_entry_t) : (changedEntry old ownerRealm entry).grant = entry.grant := by
  obtain ⟨perms, info⟩ := entry
  cases info <;> unfold changedEntry changedInfo <;> first | rfl | (dsimp only; split_ifs <;> rfl)

theorem changedInfo_back (hown : info.foreignRealm ≠ some old) :
    changedInfo ownerRealm old (changedInfo old ownerRealm info) = info := by
  have hback : ∀ foreign_id : epi_uuid_foreign_t, foreign_id.realm = ownerRealm → ⟨foreign_id.id, ownerRealm⟩ = foreign_id := by
    rintro ⟨id, realm⟩ rfl
    rfl
  cases info with
  | user id => exact if_pos (bcmp_uuid_iff.mpr rfl)
  | group id => exact if_pos (bcmp_uuid_iff.mpr rfl)
  | user_delegate id => exact if_pos (bcmp_uuid_iff.mpr rfl)
  | group_delegate id => exact if_pos (bcmp_uuid_iff.mpr rfl)
  | foreign_user foreign_id | foreign_group foreign_id | foreign_user_delegate foreign_id
  | foreign_group_delegate foreign_id =>
    have hother : ¬ bcmp old foreign_id.realm sizeof_uuid = 0 := fun h => hown (congrArg some (bcmp_uuid_iff.mp h).symm)
    by_cases hnew : bcmp ownerRealm foreign_id.realm sizeof_uuid = 0
    · simp only [changedInfo, if_pos hnew, hback foreign_id (bcmp_uuid_iff.mp hnew).symm]
    · simp only [changedInfo, if_neg hnew, if_neg hother]
  | _ => rfl

theorem changedInfo_foreignRealm (hne : ownerRealm ≠ old) :
    (changedInfo old ownerRealm info).foreignRealm ≠ some ownerRealm := by
  have hforeign : ∀ foreign_id : epi_uuid_foreign_t, ¬ bcmp ownerRealm foreign_id.realm sizeof_uuid = 0 →
      some foreign_id.realm ≠ some ownerRealm :=
    fun foreign_id h heq => h (bcmp_uuid_iff.mpr (Option.some.inj heq).symm)
  have hlocal : some old ≠ some ownerRealm := fun heq => hne (Option.some.inj heq).symm
  cases info with
  | user id | group id | user_delegate id | group_delegate id => exact hlocal
  | foreign_user foreign_id | foreign_group foreign_id | foreign_user_delegate foreign_id
  | foreign_group_delegate foreign_id =>
    unfold changedInfo
    dsimp only
    split_ifs with h
    · exact (Option.some_ne_none _).symm
    · exact hforeign foreign_id h
  | foreign_other id | foreign_other_delegate id | extended info => exact (Option.some_ne_none _).symm

theorem mem_changeRealm {entry : dacl_entry_t} :
    entry ∈ (dacl_ChangeRealm acl ownerRealm).complex_entries list ↔
      ∃ before ∈ acl.complex_entries list, changedEntry acl.default_realm ownerRealm before = entry := List.mem_map

theorem Placed.changeRealm (hplaced : Placed acl) : Placed (dacl_ChangeRealm acl ownerRealm) := by
  intro list entry hentry
  obtain ⟨before, hbefore, rfl⟩ := mem_changeRealm.mp hentry
  exact (changedInfo_list _).trans (hplaced list before hbefore)

theorem noOwnForeign_changeRealm (hne : ownerRealm ≠ acl.default_realm) : NoOwnForeign (dacl_ChangeRealm acl ownerRealm) := by
  intro list entry hentry
  obtain ⟨before, -, rfl⟩ := mem_changeRealm.mp hentry
  exact changedInfo_foreignRealm hne

/-- A search compares the user, or the group, and its realm with whom an entry is for. -/
def names (source : epi_source_id_t) (realm : epi_uuid_t) (userIdP groupIdP : Option epi_uuid_t) :
    Option (Identity × Bool) → Bool
  | some (.user entryRealm id, _) =>
    match userIdP with
    | some userId => entryRealm = realm ∧ Epi_PrinId_Cmp source userId id = 0
    | none => false
  | some (.group entryRealm id, _) =>
    match groupIdP with
    | some groupId => entryRealm = realm ∧ Epi_PrinId_Cmp source groupId id = 0
    | none => false
  | none => false

def Keyed (list : dacl_complex_entry_type_t) : Prop := list ∈ [dacl_complex_entry_type_t.user, .group, .user_delegate, .group_delegate]

theorem entryOf_eq (hplaced : Placed acl) (hown : NoOwnForeign acl) (hkeyed : Keyed list)
    (userIdP groupIdP : Option epi_uuid_t) :
    entryOf source acl list realm userIdP groupIdP = (acl.complex_entries list).find? fun entry =>
      names source realm userIdP groupIdP (entry.entry_info.identity acl.default_realm) := by
  unfold entryOf dacl_FindMatchingListEntry
  refine List.find?_congr fun entry hentry => ?_
  have hlist := hplaced list entry hentry
  have hforeign := hown list entry hentry
  obtain ⟨perms, info⟩ := entry
  dsimp only at hlist hforeign ⊢
  by_cases hrealm : realm = acl.default_realm
  · rw [if_pos (bcmp_uuid_iff.mpr hrealm)]
    cases info with
    | user id | user_delegate id => cases userIdP <;> simp [names, dacl_entry_info.identity, hrealm]
    | group id | group_delegate id => cases groupIdP <;> simp [names, dacl_entry_info.identity, hrealm]
    | foreign_user foreign_id | foreign_user_delegate foreign_id =>
      have hne : ¬ foreign_id.realm = realm := fun heq => hforeign (congrArg some (heq.trans hrealm))
      cases userIdP <;> simp [names, dacl_entry_info.identity, hne]
    | foreign_group foreign_id | foreign_group_delegate foreign_id =>
      have hne : ¬ foreign_id.realm = realm := fun heq => hforeign (congrArg some (heq.trans hrealm))
      cases groupIdP <;> simp [names, dacl_entry_info.identity, hne]
    | foreign_other id | foreign_other_delegate id | extended info => rfl
  · rw [if_neg (mt bcmp_uuid_iff.mp hrealm)]
    have hne : ¬ acl.default_realm = realm := fun heq => hrealm heq.symm
    cases info with
    | user id | user_delegate id => cases userIdP <;> simp [names, dacl_entry_info.identity, hne]
    | group id | group_delegate id => cases groupIdP <;> simp [names, dacl_entry_info.identity, hne]
    | foreign_user foreign_id | foreign_user_delegate foreign_id =>
      have hsame : foreign_id.realm = realm ↔ bcmp realm foreign_id.realm sizeof_uuid = 0 := by
        rw [bcmp_uuid_iff, eq_comm]
      cases userIdP <;> simp [names, dacl_entry_info.identity, hsame, Bool.and_comm]
    | foreign_group foreign_id | foreign_group_delegate foreign_id =>
      have hsame : foreign_id.realm = realm ↔ bcmp realm foreign_id.realm sizeof_uuid = 0 := by
        rw [bcmp_uuid_iff, eq_comm]
      cases groupIdP <;> simp [names, dacl_entry_info.identity, hsame, Bool.and_comm]
    | foreign_other id | foreign_other_delegate id | extended info =>
      subst hlist
      simp [Keyed, dacl_entry_info.list] at hkeyed

theorem entryOf_changeRealm (hplaced : Placed acl) (hown : NoOwnForeign acl) (hne : ownerRealm ≠ acl.default_realm)
    (hkeyed : Keyed list) (userIdP groupIdP : Option epi_uuid_t) :
    entryOf source (dacl_ChangeRealm acl ownerRealm) list realm userIdP groupIdP =
      (entryOf source acl list realm userIdP groupIdP).map (changedEntry acl.default_realm ownerRealm) := by
  rw [entryOf_eq hplaced.changeRealm (noOwnForeign_changeRealm hne) hkeyed, entryOf_eq hplaced hown hkeyed]
  change List.find? _ (List.map _ _) = _
  rw [List.find?_map]
  refine congrArg _ (List.find?_congr fun entry hentry => ?_)
  exact congrArg _ (changedInfo_identity (hown list entry hentry))

theorem changeRealm_back (hown : NoOwnForeign acl) :
    dacl_ChangeRealm (dacl_ChangeRealm acl ownerRealm) acl.default_realm = acl := by
  have hlists : ∀ list, ((acl.complex_entries list).map (changedEntry acl.default_realm ownerRealm)).map
      (changedEntry ownerRealm acl.default_realm) = acl.complex_entries list := by
    intro list
    rw [List.map_map]
    refine (List.map_congr_left fun entry hentry => ?_).trans (List.map_id _)
    exact congrArg (dacl_entry_t.mk entry.perms) (changedInfo_back (hown list entry hentry))
  exact congrArg (fun complex_entries => { acl with complex_entries }) (funext hlists)

/-- What a change of the default realm keeps. -/
structure IdentitiesKept (source : epi_source_id_t) (acl : dacl_t) (ownerRealm : epi_uuid_t) : Prop where
  user : ∀ list, Keyed list → ∀ realm userId,
    (entryOf source (dacl_ChangeRealm acl ownerRealm) list realm (some userId) none).map (·.grant) =
      (entryOf source acl list realm (some userId) none).map (·.grant)
  group : ∀ list, Keyed list → ∀ realm groupId,
    (entryOf source (dacl_ChangeRealm acl ownerRealm) list realm none (some groupId)).map (·.grant) =
      (entryOf source acl list realm none (some groupId)).map (·.grant)
  num_entries : (dacl_ChangeRealm acl ownerRealm).num_entries = acl.num_entries
  distinct : ∀ (list list' : dacl_complex_entry_type_t) (i j : ℕ),
    ((dacl_ChangeRealm acl ownerRealm).complex_entries list)[i]?.map (·.entry_info) =
        ((dacl_ChangeRealm acl ownerRealm).complex_entries list')[j]?.map (·.entry_info) →
      (acl.complex_entries list)[i]?.map (·.entry_info) = (acl.complex_entries list')[j]?.map (·.entry_info)
  restored : dacl_ChangeRealm (dacl_ChangeRealm acl ownerRealm) acl.default_realm = acl

/-- An ACL without entries for users and groups of its own realm. -/
def NoLocal (acl : dacl_t) : Prop := ∀ list, ∀ entry ∈ acl.complex_entries list, ¬ entry.entry_info.IsLocal

theorem changeRealm_distinct (hown : NoOwnForeign acl) (list list' : dacl_complex_entry_type_t) (i j : ℕ)
    (heq : ((dacl_ChangeRealm acl ownerRealm).complex_entries list)[i]?.map (·.entry_info) =
      ((dacl_ChangeRealm acl ownerRealm).complex_entries list')[j]?.map (·.entry_info)) :
    (acl.complex_entries list)[i]?.map (·.entry_info) = (acl.complex_entries list')[j]?.map (·.entry_info) := by
  have hback : ∀ (list : dacl_complex_entry_type_t) (i : ℕ), (acl.complex_entries list)[i]?.map (·.entry_info) =
      (((dacl_ChangeRealm acl ownerRealm).complex_entries list)[i]?.map (·.entry_info)).map
        (changedInfo ownerRealm acl.default_realm) := by
    intro list i
    have hlist : (dacl_ChangeRealm acl ownerRealm).complex_entries list =
        (acl.complex_entries list).map (changedEntry acl.default_realm ownerRealm) := rfl
    rw [hlist, List.getElem?_map]
    cases hentry : (acl.complex_entries list)[i]? with
    | none => rfl
    | some entry => exact congrArg some (changedInfo_back (hown list entry (List.mem_of_getElem? hentry))).symm
  rw [hback list i, hback list' j, heq]

theorem changeRealm_self (hown : NoOwnForeign acl) (hlocal : NoLocal acl) : dacl_ChangeRealm acl acl.default_realm = acl := by
  have hlists : ∀ list, (acl.complex_entries list).map (changedEntry acl.default_realm acl.default_realm) = acl.complex_entries list := by
    intro list
    refine (List.map_congr_left fun entry hentry => ?_).trans (List.map_id _)
    have hforeign := hown list entry hentry
    have hkept := hlocal list entry hentry
    obtain ⟨perms, info⟩ := entry
    cases info with
    | user id | group id | user_delegate id | group_delegate id => exact absurd trivial hkept
    | foreign_user foreign_id | foreign_group foreign_id | foreign_user_delegate foreign_id
    | foreign_group_delegate foreign_id =>
      exact congrArg (dacl_entry_t.mk perms) (if_neg fun h => hforeign (congrArg some (bcmp_uuid_iff.mp h).symm))
    | foreign_other id | foreign_other_delegate id | extended info => rfl
  exact congrArg (fun complex_entries => { acl with complex_entries }) (funext hlists)

theorem entryOf_eq_none (hlocal : NoLocal acl) (list : dacl_complex_entry_type_t) (userIdP groupIdP : Option epi_uuid_t) :
    entryOf source acl list acl.default_realm userIdP groupIdP = none := by
  unfold entryOf dacl_FindMatchingListEntry
  rw [if_pos (bcmp_uuid_iff.mpr rfl), List.find?_eq_none]
  intro entry hentry
  have hkept := hlocal list entry hentry
  obtain ⟨perms, info⟩ := entry
  cases info with
  | user id | group id | user_delegate id | group_delegate id => exact absurd trivial hkept
  | foreign_user foreign_id | foreign_user_delegate foreign_id => cases userIdP <;> simp
  | foreign_group foreign_id | foreign_group_delegate foreign_id => cases groupIdP <;> simp
  | foreign_other id | foreign_other_delegate id | extended info => simp

theorem noLocal_changeRealm_self (hown : NoOwnForeign acl) : NoLocal (dacl_ChangeRealm acl acl.default_realm) := by
  intro list entry hentry
  obtain ⟨before, hbefore, rfl⟩ := mem_changeRealm.mp hentry
  have hforeign := hown list before hbefore
  obtain ⟨perms, info⟩ := before
  cases info with
  | foreign_user foreign_id | foreign_group foreign_id | foreign_user_delegate foreign_id
  | foreign_group_delegate foreign_id =>
    have hother : ¬ bcmp acl.default_realm foreign_id.realm sizeof_uuid = 0 :=
      fun h => hforeign (congrArg some (bcmp_uuid_iff.mp h).symm)
    simp [changedEntry, changedInfo, if_neg hother, dacl_entry_info.IsLocal]
  | _ => exact not_false

theorem prinId_self (id : epi_uuid_t) : Epi_PrinId_Cmp source id id = 0 := if_pos rfl

theorem entryOf_local (source : epi_source_id_t) {entry : dacl_entry_t} (hentry : entry ∈ acl.complex_entries list) :
    (∀ id, entry.entry_info = .user id ∨ entry.entry_info = .user_delegate id →
      entryOf source acl list acl.default_realm (some id) none ≠ none) ∧
    ∀ id, entry.entry_info = .group id ∨ entry.entry_info = .group_delegate id →
      entryOf source acl list acl.default_realm none (some id) ≠ none := by
  unfold entryOf dacl_FindMatchingListEntry
  rw [if_pos (bcmp_uuid_iff.mpr rfl)]
  simp only [ne_eq, List.find?_eq_none]
  constructor
  · intro id hid hnone
    refine hnone entry hentry ?_
    obtain h | h := hid <;> simp [h, prinId_self]
  · intro id hid hnone
    refine hnone entry hentry ?_
    obtain h | h := hid <;> simp [h, prinId_self]

/-- A change of the default realm keeps whom the entries are for, and can be taken back, exactly where the realm is another one
or the ACL has no local entries: those would become foreign ones of their own realm, which nothing matches. -/
theorem change_realm_iff (source : epi_source_id_t) (acl : dacl_t) (hplaced : Placed acl) (hown : NoOwnForeign acl)
    (ownerRealm : epi_uuid_t) : IdentitiesKept source acl ownerRealm ↔ ownerRealm ≠ acl.default_realm ∨ NoLocal acl := by
  constructor
  · intro hkept
    by_contra hnot
    obtain ⟨rfl, hlocal⟩ : ownerRealm = acl.default_realm ∧ ¬ NoLocal acl := by simpa using hnot
    refine hlocal fun list entry hentry his => ?_
    have hlost : ∀ userIdP groupIdP, entryOf source (dacl_ChangeRealm acl acl.default_realm) list acl.default_realm userIdP
        groupIdP = none := entryOf_eq_none (noLocal_changeRealm_self hown) list
    have hfound := entryOf_local source hentry
    have hlist := hplaced list entry hentry
    obtain ⟨perms, info⟩ := entry
    have hkeyed : Keyed list := by
      rw [← hlist]
      cases info with
      | user id | group id | user_delegate id | group_delegate id => simp [Keyed, dacl_entry_info.list]
      | _ => exact absurd his not_false
    cases info with
    | user id | user_delegate id =>
      have huser := hkept.user list hkeyed acl.default_realm id
      rw [hlost] at huser
      exact hfound.1 id (by simp) (Option.map_eq_none_iff.mp huser.symm)
    | group id | group_delegate id =>
      have hgroup := hkept.group list hkeyed acl.default_realm id
      rw [hlost] at hgroup
      exact hfound.2 id (by simp) (Option.map_eq_none_iff.mp hgroup.symm)
    | _ => exact his
  · intro hcondition
    by_cases hne : ownerRealm = acl.default_realm
    · subst hne
      have hsame := changeRealm_self hown (hcondition.resolve_left (not_not.mpr rfl))
      refine ⟨?_, ?_, rfl, changeRealm_distinct hown, changeRealm_back hown⟩ <;>
      · intro list _ realm id
        rw [hsame]
    · have hsame : ∀ list, Keyed list → ∀ realm userIdP groupIdP,
          (entryOf source (dacl_ChangeRealm acl ownerRealm) list realm userIdP groupIdP).map (·.grant) =
            (entryOf source acl list realm userIdP groupIdP).map (·.grant) := by
        intro list hkeyed realm userIdP groupIdP
        rw [entryOf_changeRealm hplaced hown hne hkeyed, Option.map_map]
        exact congrArg (Option.map · _) (funext changedEntry_grant)
      exact ⟨fun list hkeyed realm userId => hsame list hkeyed realm (some userId) none,
        fun list hkeyed realm groupId => hsame list hkeyed realm none (some groupId), rfl, changeRealm_distinct hown,
        changeRealm_back hown⟩

def localRealm : epi_uuid_t := ⟨List.replicate 16 2, rfl⟩

def localUserAcl : dacl_t where
  mgr_type_tag := zeroUuid
  default_realm := localRealm
  num_entries := 1
  simple_entries := fun _ => ⟨0, 0⟩
  complex_entries
    | .user => [⟨dacl_perm_read, .user zeroUuid⟩]
    | _ => []
  flags := 0

theorem localUserAcl_placed : Placed localUserAcl := by
  intro list entry hentry
  cases list <;> simp [localUserAcl] at hentry
  rw [hentry]
  rfl

theorem localUserAcl_noOwnForeign : NoOwnForeign localUserAcl := by
  intro list entry hentry
  cases list <;> simp [localUserAcl] at hentry
  rw [hentry]
  exact (Option.some_ne_none _).symm

/-- With its own realm for the new one the entry is found no more. -/
theorem own_realm_loses_entry : NoOwnForeign localUserAcl ∧
    (entryOf .uuid localUserAcl .user localRealm (some zeroUuid) none).map (·.grant) = some (dacl_perm_read, false) ∧
      entryOf .uuid (dacl_ChangeRealm localUserAcl localRealm) .user localRealm (some zeroUuid) none = none :=
  ⟨localUserAcl_noOwnForeign, by decide +kernel, by decide +kernel⟩

theorem change_realm_zero : IdentitiesKept .uuid localUserAcl zeroUuid := by
  refine (change_realm_iff .uuid localUserAcl localUserAcl_placed localUserAcl_noOwnForeign zeroUuid).mpr (.inl ?_)
  decide

end dce.dacl
