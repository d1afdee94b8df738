import Dce.Sec.PermsetAlg

open lib dce.rpc

set_option linter.style.nameCheck false

namespace dce.sec

inductive sec_acl_entry_type_t where
  | user_obj
  | group_obj
  | other_obj
  | user
  | group
  | mask_obj
  | foreign_user
  | foreign_group
  | foreign_other
  | unauthenticated
  | extended
  | any_other
  | user_obj_deleg
  | user_deleg
  | for_user_deleg
  | group_obj_deleg
  | group_deleg
  | for_group_deleg
  | other_obj_deleg
  | for_other_deleg
  | any_other_deleg
  deriving DecidableEq

/-- The statuses of the calls that build an ACL. -/
inductive acl_status where
  | error_status_ok
  | acl_s_type_not_registered
  | sec_acl_invalid_permission
  | sec_acl_duplicate_entry
  | sec_acl_bad_parameter
  | sec_acl_invalid_entry_type
  | rpc_s_no_memory
  deriving DecidableEq

def sec_acl_entry_u.entry_type : sec_acl_entry_u → sec_acl_entry_type_t
  | .user_obj => .user_obj
  | .group_obj => .group_obj
  | .other_obj => .other_obj
  | .user _ => .user
  | .group _ => .group
  | .mask_obj => .mask_obj
  | .foreign_user _ => .foreign_user
  | .foreign_group _ => .foreign_group
  | .foreign_other _ => .foreign_other
  | .unauthenticated => .unauthenticated
  | .extended => .extended
  | .any_other => .any_other
  | .user_obj_deleg => .user_obj_deleg
  | .user_deleg _ => .user_deleg
  | .for_user_deleg _ => .for_user_deleg
  | .group_obj_deleg => .group_obj_deleg
  | .group_deleg _ => .group_deleg
  | .for_group_deleg _ => .for_group_deleg
  | .other_obj_deleg => .other_obj_deleg
  | .for_other_deleg _ => .for_other_deleg
  | .any_other_deleg => .any_other_deleg

/-- An ACL with the type of its manager. The entries and `num_entries` are one list. -/
structure managed_acl_t extends sec_acl_t where
  sec_acl_manager_type : uuid_t
  deriving DecidableEq

/-- `acl_mgt_t`: of a registered manager, what the calls that build an ACL read. -/
structure acl_mgt_t where
  mgr_type : uuid_t
  max_perm : sec_acl_permset_t

variable (acl_mgt : List acl_mgt_t)

def dce_acl__get_info_from_type (mgr_type : uuid_t) : Option acl_mgt_t :=
  acl_mgt.find? fun info => ((uuid_equal mgr_type info.mgr_type).run .error_status_ok).1

def dce_acl__check_perm_bits (acl : managed_acl_t) (permset : sec_acl_permset_t) : acl_status :=
  match dce_acl__get_info_from_type acl_mgt acl.sec_acl_manager_type with
  | none => .acl_s_type_not_registered
  | some am_info => if ~~~am_info.max_perm &&& permset ≠ 0 then .sec_acl_invalid_permission else .error_status_ok

/-- What `dce_acl__check_duplicate` makes of one entry of the given type. The status of `uuid_equal` is not looked at. -/
def duplicateStatus (id realm : Option uuid_t) (info : sec_acl_entry_u) : acl_status :=
  match info with
  | .user entry_id | .group entry_id | .foreign_other entry_id | .user_deleg entry_id | .group_deleg entry_id
  | .for_other_deleg entry_id =>
    match id with
    | some id =>
      if ((uuid_equal id entry_id.uuid).run .error_status_ok).1 then .sec_acl_duplicate_entry else .error_status_ok
    | none => .sec_acl_bad_parameter
  | .mask_obj | .user_obj | .group_obj | .other_obj | .unauthenticated | .any_other | .user_obj_deleg | .group_obj_deleg
  | .other_obj_deleg | .any_other_deleg => .sec_acl_duplicate_entry
  | .foreign_user foreign_id | .foreign_group foreign_id | .for_user_deleg foreign_id | .for_group_deleg foreign_id =>
    match realm, id with
    | some realm, some id =>
      if ((uuid_equal realm foreign_id.realm.uuid).run .error_status_ok).1 &&
          ((uuid_equal id foreign_id.id.uuid).run .error_status_ok).1 then .sec_acl_duplicate_entry
      else .error_status_ok
    | _, _ => .sec_acl_bad_parameter
  | .extended => .error_status_ok

/-- `dce_acl__check_duplicate`, with its loop over the entries. -/
def dce_acl__check_duplicate (entry_type : sec_acl_entry_type_t) (id realm : Option uuid_t) : List sec_acl_entry_t → acl_status
  | [] => .error_status_ok
  | e :: entries =>
    if e.entry_info.entry_type = entry_type ∧ duplicateStatus id realm e.entry_info ≠ .error_status_ok then
      duplicateStatus id realm e.entry_info
    else dce_acl__check_duplicate entry_type id realm entries

def managed_acl_t.append (acl : managed_acl_t) (entry : sec_acl_entry_t) : managed_acl_t :=
  { acl with sec_acl_entries := acl.sec_acl_entries ++ [entry] }

def zeroEntry : sec_acl_entry_t := ⟨0, .user_obj⟩

variable (memory : Bool)

/-- `incr__acl_ent_list`: a zeroed entry at the end, if `rpc_sm_allocate` and `rpc_sm_free` succeed. -/
def incr__acl_ent_list (acl : managed_acl_t) : Option managed_acl_t := if memory then some (acl.append zeroEntry) else none

/-- The stores through the pointer that `incr__acl_ent_list` returns. -/
def setLast (acl : managed_acl_t) (entry : sec_acl_entry_t) : managed_acl_t :=
  { acl with sec_acl_entries := acl.sec_acl_entries.dropLast ++ [entry] }

/-- The common part of the calls for an entry with an identity: the checks, then the entry. -/
def add_checked_entry (acl : managed_acl_t) (entry_type : sec_acl_entry_type_t) (permset : sec_acl_permset_t)
    (id realm : Option uuid_t) (info : sec_acl_entry_u) : acl_status × managed_acl_t :=
  match dce_acl__check_perm_bits acl_mgt acl permset with
  | .error_status_ok =>
    match dce_acl__check_duplicate entry_type id realm acl.sec_acl_entries with
    | .error_status_ok =>
      match incr__acl_ent_list memory acl with
      | none => (.rpc_s_no_memory, acl)
      | some acl => (.error_status_ok, setLast acl ⟨permset, info⟩)
    | st => (st, acl)
  | st => (st, acl)

/-- The types of `dce_acl_obj_add_id_entry`, each with the entry of that type. -/
def idEntry (id : sec_id_t uuid_t) : sec_acl_entry_type_t → Option sec_acl_entry_u
  | .user => some (.user id)
  | .group => some (.group id)
  | .foreign_other => some (.foreign_other id)
  | .user_deleg => some (.user_deleg id)
  | .group_deleg => some (.group_deleg id)
  | .for_other_deleg => some (.for_other_deleg id)
  | _ => none

/-- `dce_acl_obj_add_id_entry`. Its identifier is there, as the check for duplicates wants it. -/
def dce_acl_obj_add_id_entry (acl : managed_acl_t) (entry_type : sec_acl_entry_type_t) (permset : sec_acl_permset_t) (id : uuid_t) :
    acl_status × managed_acl_t :=
  match idEntry ⟨id⟩ entry_type with
  | some info => add_checked_entry acl_mgt memory acl entry_type permset (some id) none info
  | none => (.sec_acl_invalid_entry_type, acl)

/-- The types of `dce_acl_obj_add_foreign_entry`, each with the entry of that type. -/
def foreignEntry (foreign_id : sec_id_foreign_t uuid_t) : sec_acl_entry_type_t → Option sec_acl_entry_u
  | .foreign_user => some (.foreign_user foreign_id)
  | .foreign_group => some (.foreign_group foreign_id)
  | .for_user_deleg => some (.for_user_deleg foreign_id)
  | .for_group_deleg => some (.for_group_deleg foreign_id)
  | _ => none

def dce_acl_obj_add_foreign_entry (acl : managed_acl_t) (entry_type : sec_acl_entry_type_t) (permset : sec_acl_permset_t)
    (realm id : uuid_t) : acl_status × managed_acl_t :=
  match foreignEntry ⟨⟨id⟩, ⟨realm⟩⟩ entry_type with
  | some info => add_checked_entry acl_mgt memory acl entry_type permset (some id) (some realm) info
  | none => (.sec_acl_invalid_entry_type, acl)

/-- The types of `dce_acl_obj_add_obj_entry`, each with the entry of that type. -/
def objEntry : sec_acl_entry_type_t → Option sec_acl_entry_u
  | .mask_obj => some .mask_obj
  | .user_obj => some .user_obj
  | .group_obj => some .group_obj
  | .other_obj => some .other_obj
  | .unauthenticated => some .unauthenticated
  | .any_other => some .any_other
  | .user_obj_deleg => some .user_obj_deleg
  | .group_obj_deleg => some .group_obj_deleg
  | .other_obj_deleg => some .other_obj_deleg
  | .any_other_deleg => some .any_other_deleg
  | _ => none

/-- `dce_acl_obj_add_obj_entry`. Here the list grows before the checks. -/
def dce_acl_obj_add_obj_entry (acl : managed_acl_t) (entry_type : sec_acl_entry_type_t) (permset : sec_acl_permset_t) :
    acl_status × managed_acl_t :=
  match incr__acl_ent_list memory acl with
  | none => (.rpc_s_no_memory, acl)
  | some acl =>
    match objEntry entry_type with
    | some info =>
      match dce_acl__check_perm_bits acl_mgt acl permset with
      | .error_status_ok =>
        match dce_acl__check_duplicate entry_type none none acl.sec_acl_entries with
        | .error_status_ok => (.error_status_ok, setLast acl ⟨permset, info⟩)
        | st => (st, acl)
      | st => (st, acl)
    | none => (.sec_acl_invalid_entry_type, acl)

/-- A call of one of the three functions. -/
inductive AddCall where
  | id_entry (entry_type : sec_acl_entry_type_t) (permset : sec_acl_permset_t) (id : uuid_t)
  | obj_entry (entry_type : sec_acl_entry_type_t) (permset : sec_acl_permset_t)
  | foreign_entry (entry_type : sec_acl_entry_type_t) (permset : sec_acl_permset_t) (realm id : uuid_t)

namespace AddCall

/-- The status of a call and the ACL that it leaves. -/
def run (acl : managed_acl_t) : AddCall → acl_status × managed_acl_t
  | id_entry entry_type permset id => dce_acl_obj_add_id_entry acl_mgt memory acl entry_type permset id
  | obj_entry entry_type permset => dce_acl_obj_add_obj_entry acl_mgt memory acl entry_type permset
  | foreign_entry entry_type permset realm id => dce_acl_obj_add_foreign_entry acl_mgt memory acl entry_type permset realm id

/-- The entry that a call is for, if its type belongs to the function. -/
def entry : AddCall → Option sec_acl_entry_t
  | id_entry entry_type permset id => (idEntry ⟨id⟩ entry_type).map (⟨permset, ·⟩)
  | obj_entry entry_type permset => (objEntry entry_type).map (⟨permset, ·⟩)
  | foreign_entry entry_type permset realm id => (foreignEntry ⟨⟨id⟩, ⟨realm⟩⟩ entry_type).map (⟨permset, ·⟩)

def WithinMaximum (acl : managed_acl_t) (permset : sec_acl_permset_t) : Prop :=
  ∃ am_info, dce_acl__get_info_from_type acl_mgt acl.sec_acl_manager_type = some am_info ∧ Within permset am_info.max_perm

/-- An entry of the same type and for the same identity is there. -/
def Present (acl : managed_acl_t) (info : sec_acl_entry_u) : Prop := ∃ e ∈ acl.sec_acl_entries, e.entry_info = info

/-- The type belongs to the function, the permissions are within the maximum, and no equal entry is there. -/
def Right (acl : managed_acl_t) (call : AddCall) : Prop :=
  ∃ e, call.entry = some e ∧ WithinMaximum acl_mgt acl e.perms ∧ ¬ Present acl e.entry_info

/-- A call succeeds exactly when it is right, unless it is out of memory; success appends the entry, and failure leaves the
ACL as it was. -/
structure Meets (acl : managed_acl_t) (call : AddCall) : Prop where
  succeeds : (call.run acl_mgt memory acl).1 ≠ .rpc_s_no_memory →
    ((call.run acl_mgt memory acl).1 = .error_status_ok ↔ call.Right acl_mgt acl)
  appends : (call.run acl_mgt memory acl).1 = .error_status_ok →
    ∃ e, call.entry = some e ∧ (call.run acl_mgt memory acl).2 = acl.append e
  leaves : (call.run acl_mgt memory acl).1 ≠ .error_status_ok → (call.run acl_mgt memory acl).1 ≠ .rpc_s_no_memory →
    (call.run acl_mgt memory acl).2 = acl

/-- The identifiers of a call are of known variants, so that `uuid_equal` can find them. -/
def Comparable : AddCall → Prop
  | id_entry _ _ id => CHECK_STRUCTURE id = true
  | obj_entry _ _ => True
  | foreign_entry _ _ realm id => CHECK_STRUCTURE realm = true ∧ CHECK_STRUCTURE id = true

/-- Where the calls do this: an entry without an identity has to be right and not of the type of a zeroed entry, and one with
an identity that cannot be compared has to be new, or wrong in its permissions. -/
def Sound (acl : managed_acl_t) : AddCall → Prop
  | obj_entry entry_type permset => memory = false ∨ (obj_entry entry_type permset).Right acl_mgt acl ∧ entry_type ≠ .user_obj
  | call => memory = false ∨ call.Comparable ∨
      ∀ e, call.entry = some e → WithinMaximum acl_mgt acl e.perms → ¬ Present acl e.entry_info

end AddCall

variable {acl_mgt memory} {acl : managed_acl_t}

theorem check_perm_bits_eq_ok_iff {permset : sec_acl_permset_t} :
    dce_acl__check_perm_bits acl_mgt acl permset = .error_status_ok ↔ AddCall.WithinMaximum acl_mgt acl permset := by
  rw [dce_acl__check_perm_bits, AddCall.WithinMaximum]
  cases dce_acl__get_info_from_type acl_mgt acl.sec_acl_manager_type with
  | none => simp
  | some am_info =>
    simp only [Option.some.injEq, exists_eq_left', ← not_and_eq_zero_iff]
    split_ifs with houtside
    · exact ⟨fun h => absurd h (by decide), fun h => absurd h houtside⟩
    · exact ⟨fun _ => not_not.mp houtside, fun _ => rfl⟩

theorem check_perm_bits_ne_no_memory (acl_mgt : List acl_mgt_t) (acl : managed_acl_t) (permset : sec_acl_permset_t) :
    dce_acl__check_perm_bits acl_mgt acl permset ≠ .rpc_s_no_memory := by
  unfold dce_acl__check_perm_bits
  split
  · simp
  · split <;> simp

variable {entry_type : sec_acl_entry_type_t} {info : sec_acl_entry_u}

theorem duplicateStatus_ne_no_memory {id realm : Option uuid_t} :
    duplicateStatus id realm info ≠ .rpc_s_no_memory := by
  unfold duplicateStatus
  repeat' split
  all_goals simp

theorem check_duplicate_ne_no_memory (entry_type : sec_acl_entry_type_t) (id realm : Option uuid_t)
    (entries : List sec_acl_entry_t) : dce_acl__check_duplicate entry_type id realm entries ≠ .rpc_s_no_memory := by
  induction entries with
  | nil => simp [dce_acl__check_duplicate]
  | cons e entries ih =>
    rw [dce_acl__check_duplicate]
    split_ifs
    · exact duplicateStatus_ne_no_memory
    · exact ih

theorem check_duplicate_eq_ok_iff {id realm : Option uuid_t} {entries : List sec_acl_entry_t} :
    dce_acl__check_duplicate entry_type id realm entries = .error_status_ok ↔
      ∀ e ∈ entries, e.entry_info.entry_type = entry_type → duplicateStatus id realm e.entry_info = .error_status_ok := by
  induction entries with
  | nil => simp [dce_acl__check_duplicate]
  | cons e entries ih =>
    rw [dce_acl__check_duplicate, List.forall_mem_cons]
    split_ifs with hfound
    · exact ⟨fun h => absurd h hfound.2, fun h => absurd (h.1 hfound.1) hfound.2⟩
    · rw [ih, iff_and_self]
      intro _ htype
      by_contra hstatus
      exact hfound ⟨htype, hstatus⟩

theorem uuid_equal_eq_true_iff {uuid1 uuid2 : uuid_t} :
    ((uuid_equal uuid1 uuid2).run .error_status_ok).1 = true ↔ CHECK_STRUCTURE uuid1 = true ∧ uuid1 = uuid2 := by
  rw [uuid_equal_answers, sameUuid]
  constructor
  · intro h
    simp only [Bool.and_eq_true, decide_eq_true_eq] at h
    exact ⟨h.1.1, h.2⟩
  · rintro ⟨h, rfl⟩
    simp [h]

theorem duplicateStatus_id_iff {id : uuid_t}
    (hinfo : idEntry ⟨id⟩ entry_type = some info) (e : sec_acl_entry_u) :
    (e.entry_type = entry_type → duplicateStatus (some id) none e = .error_status_ok) ↔ (CHECK_STRUCTURE id = true → e ≠ info) := by
  cases entry_type <;> simp only [idEntry, Option.some.injEq, reduceCtorEq] at hinfo <;> subst hinfo <;>
  cases e <;>
  simp only [sec_acl_entry_u.entry_type, reduceCtorEq, false_implies, ne_eq, not_false_eq_true, implies_true, forall_true_left,
    duplicateStatus, uuid_equal_eq_true_iff, ite_eq_right_iff, imp_false, not_and, sec_acl_entry_u.user.injEq,
    sec_acl_entry_u.group.injEq, sec_acl_entry_u.foreign_other.injEq, sec_acl_entry_u.user_deleg.injEq,
    sec_acl_entry_u.group_deleg.injEq, sec_acl_entry_u.for_other_deleg.injEq]
  all_goals
    rename_i entry_id
    cases entry_id
    simp only [sec_id_t.mk.injEq]
    grind

theorem duplicateStatus_foreign_iff {realm id : uuid_t}
    (hinfo : foreignEntry ⟨⟨id⟩, ⟨realm⟩⟩ entry_type = some info) (e : sec_acl_entry_u) :
    (e.entry_type = entry_type → duplicateStatus (some id) (some realm) e = .error_status_ok) ↔
      (CHECK_STRUCTURE realm = true ∧ CHECK_STRUCTURE id = true → e ≠ info) := by
  cases entry_type <;> simp only [foreignEntry, Option.some.injEq, reduceCtorEq] at hinfo <;> subst hinfo <;>
  cases e <;>
  simp only [sec_acl_entry_u.entry_type, reduceCtorEq, false_implies, ne_eq, not_false_eq_true, implies_true, forall_true_left,
    duplicateStatus, Bool.and_eq_true, uuid_equal_eq_true_iff, ite_eq_right_iff, imp_false, sec_acl_entry_u.foreign_user.injEq,
    sec_acl_entry_u.foreign_group.injEq, sec_acl_entry_u.for_user_deleg.injEq, sec_acl_entry_u.for_group_deleg.injEq]
  all_goals
    rename_i foreign_id
    obtain ⟨⟨entry_id⟩, ⟨entry_realm⟩⟩ := foreign_id
    simp only [sec_id_foreign_t.mk.injEq, sec_id_t.mk.injEq]
    grind

theorem objEntry_type_iff (hinfo : objEntry entry_type = some info)
    (e : sec_acl_entry_u) : e.entry_type = entry_type ↔ e = info := by
  cases entry_type <;> simp only [objEntry, Option.some.injEq, reduceCtorEq] at hinfo <;> subst hinfo <;>
  cases e <;> simp [sec_acl_entry_u.entry_type]

theorem duplicateStatus_obj (hinfo : objEntry entry_type = some info) :
    duplicateStatus none none info ≠ .error_status_ok := by
  cases entry_type <;> simp only [objEntry, Option.some.injEq, reduceCtorEq] at hinfo <;> subst hinfo <;> simp [duplicateStatus]

theorem setLast_append (entry entry' : sec_acl_entry_t) : setLast (acl.append entry) entry' = acl.append entry' := by
  simp [setLast, managed_acl_t.append]

theorem append_ne (entry : sec_acl_entry_t) : acl.append entry ≠ acl := by
  intro h
  have hlength := congrArg (fun acl => acl.sec_acl_entries.length) h
  simp [managed_acl_t.append] at hlength

theorem add_checked_entry_cases (acl_mgt : List acl_mgt_t) (memory : Bool) (acl : managed_acl_t) (entry_type : sec_acl_entry_type_t)
    (permset : sec_acl_permset_t) (id realm : Option uuid_t) (info : sec_acl_entry_u) :
    let right := AddCall.WithinMaximum acl_mgt acl permset ∧
      dce_acl__check_duplicate entry_type id realm acl.sec_acl_entries = .error_status_ok
    let result := add_checked_entry acl_mgt memory acl entry_type permset id realm info
    ¬ right ∧ result.1 ≠ .error_status_ok ∧ result.1 ≠ .rpc_s_no_memory ∧ result.2 = acl ∨
      right ∧ memory = false ∧ result = (.rpc_s_no_memory, acl) ∨
      right ∧ memory = true ∧ result = (.error_status_ok, acl.append ⟨permset, info⟩) := by
  dsimp only
  rw [add_checked_entry, ← check_perm_bits_eq_ok_iff]
  have hperms := check_perm_bits_ne_no_memory acl_mgt acl permset
  have hduplicate := check_duplicate_ne_no_memory entry_type id realm acl.sec_acl_entries
  generalize dce_acl__check_perm_bits acl_mgt acl permset = perms at hperms ⊢
  generalize dce_acl__check_duplicate entry_type id realm acl.sec_acl_entries = duplicate at hduplicate ⊢
  by_cases hp : perms = .error_status_ok
  · subst hp
    by_cases hd : duplicate = .error_status_ok
    · subst hd
      cases memory with
      | false => exact .inr (.inl ⟨⟨rfl, rfl⟩, rfl, rfl⟩)
      | true => exact .inr (.inr ⟨⟨rfl, rfl⟩, rfl, by simp [incr__acl_ent_list, setLast_append]⟩)
    · refine .inl ⟨fun h => hd h.2, ?_⟩
      cases duplicate <;> simp at hd hduplicate ⊢
  · refine .inl ⟨fun h => hp h.1, ?_⟩
    cases perms <;> simp at hp hperms ⊢

namespace AddCall

variable (entry_type : sec_acl_entry_type_t) {call : AddCall}

theorem meets_checked_iff (permset : sec_acl_permset_t)
    (id realm : Option uuid_t) (info : sec_acl_entry_u) (hentry : call.entry = some ⟨permset, info⟩)
    (hrun : call.run acl_mgt memory acl = add_checked_entry acl_mgt memory acl entry_type permset id realm info)
    (hsearch : dce_acl__check_duplicate entry_type id realm acl.sec_acl_entries = .error_status_ok ↔
      (call.Comparable → ¬ Present acl info)) :
    call.Meets acl_mgt memory acl ↔
      memory = false ∨ call.Comparable ∨ ∀ e, call.entry = some e → WithinMaximum acl_mgt acl e.perms → ¬ Present acl e.entry_info := by
  have hright : call.Right acl_mgt acl ↔ WithinMaximum acl_mgt acl permset ∧ ¬ Present acl info := by
    simp [Right, hentry]
  simp only [hentry, Option.some.injEq, forall_eq']
  have hcases := add_checked_entry_cases acl_mgt memory acl entry_type permset id realm info
  dsimp only at hcases
  rw [← hrun, hsearch] at hcases
  obtain ⟨hwrong, hstatus, hmemory, hleft⟩ | ⟨⟨hwithin, hnew⟩, rfl, hresult⟩ | ⟨⟨hwithin, hnew⟩, rfl, hresult⟩ := hcases
  · -- refused by a check
    constructor
    · intro _
      by_cases hcomparable : call.Comparable
      · exact .inr (.inl hcomparable)
      · exact .inr (.inr fun hwithin _ => hwrong ⟨hwithin, fun h => absurd h hcomparable⟩)
    · intro _
      refine ⟨fun _ => ⟨fun h => absurd h hstatus, fun h => ?_⟩, fun h => absurd h hstatus, fun _ _ => hleft⟩
      rw [hright] at h
      exact absurd ⟨h.1, fun _ => h.2⟩ hwrong
  · refine ⟨fun _ => .inl rfl, fun _ => ⟨fun h => ?_, fun h => ?_, fun _ h => ?_⟩⟩ <;> rw [hresult] at h
    · exact absurd rfl h
    · exact acl_status.noConfusion h
    · exact absurd rfl h
  · -- a new entry, by what could be compared
    constructor
    · intro hmeets
      have hgranted := (hmeets.succeeds (by simp [hresult])).mp (by rw [hresult])
      exact .inr (.inr fun _ => (hright.mp hgranted).2)
    · intro hsound
      have hpresent : ¬ Present acl info := by
        obtain h | h | h := hsound
        · simp at h
        · exact hnew h
        · exact h hwithin
      refine ⟨fun _ => iff_of_true (by rw [hresult]) (hright.mpr ⟨hwithin, hpresent⟩), fun _ => ⟨_, hentry, by rw [hresult]⟩,
        fun h => absurd (by rw [hresult]) h⟩

theorem meets_invalid (hentry : call.entry = none)
    (hrun : call.run acl_mgt memory acl = (.sec_acl_invalid_entry_type, acl)) : call.Meets acl_mgt memory acl := by
  refine ⟨fun _ => ?_, fun h => ?_, fun _ _ => by rw [hrun]⟩
  · rw [hrun]
    simp [Right, hentry]
  · rw [hrun] at h
    simp at h

theorem meets_id_iff (permset : sec_acl_permset_t) (id : uuid_t) :
    (id_entry entry_type permset id).Meets acl_mgt memory acl ↔ (id_entry entry_type permset id).Sound acl_mgt memory acl := by
  cases hinfo : idEntry ⟨id⟩ entry_type with
  | none =>
    have hentry : (id_entry entry_type permset id).entry = none := by simp [entry, hinfo]
    refine iff_of_true (meets_invalid hentry (by simp [run, dce_acl_obj_add_id_entry, hinfo])) ?_
    exact .inr (.inr fun e h => by simp [hentry] at h)
  | some info =>
    refine meets_checked_iff entry_type permset (some id) none info (by simp [entry, hinfo])
      (by simp [run, dce_acl_obj_add_id_entry, hinfo]) ?_
    simp only [check_duplicate_eq_ok_iff, duplicateStatus_id_iff hinfo, Comparable, Present, not_exists, not_and]
    exact ⟨fun h hc e he => h e he hc, fun h e he hc => h hc e he⟩

theorem meets_foreign_iff (permset : sec_acl_permset_t) (realm id : uuid_t) :
    (foreign_entry entry_type permset realm id).Meets acl_mgt memory acl ↔
      (foreign_entry entry_type permset realm id).Sound acl_mgt memory acl := by
  cases hinfo : foreignEntry ⟨⟨id⟩, ⟨realm⟩⟩ entry_type with
  | none =>
    have hentry : (foreign_entry entry_type permset realm id).entry = none := by simp [entry, hinfo]
    refine iff_of_true (meets_invalid hentry (by simp [run, dce_acl_obj_add_foreign_entry, hinfo])) ?_
    exact .inr (.inr fun e h => by simp [hentry] at h)
  | some info =>
    refine meets_checked_iff entry_type permset (some id) (some realm) info (by simp [entry, hinfo])
      (by simp [run, dce_acl_obj_add_foreign_entry, hinfo]) ?_
    simp only [check_duplicate_eq_ok_iff, duplicateStatus_foreign_iff hinfo, Comparable, Present, not_exists]
    exact ⟨fun h hc e he => h e he.1 hc he.2, fun h e he hc heq => h hc e ⟨he, heq⟩⟩

theorem check_duplicate_zeroed_iff {entry_type : sec_acl_entry_type_t} {info : sec_acl_entry_u}
    (hinfo : objEntry entry_type = some info) :
    dce_acl__check_duplicate entry_type none none (acl.append zeroEntry).sec_acl_entries = .error_status_ok ↔
      ¬ Present acl info ∧ entry_type ≠ .user_obj := by
  have hzero : zeroEntry.entry_info = info ↔ entry_type = .user_obj := by
    rw [← objEntry_type_iff hinfo]
    exact eq_comm
  have hmiss : ∀ e : sec_acl_entry_u, (e.entry_type = entry_type → duplicateStatus none none e = .error_status_ok) ↔ e ≠ info := by
    intro e
    rw [objEntry_type_iff hinfo]
    constructor
    · rintro h rfl
      exact duplicateStatus_obj hinfo (h rfl)
    · exact fun hne heq => absurd heq hne
  simp only [check_duplicate_eq_ok_iff, hmiss, managed_acl_t.append, List.forall_mem_append, List.forall_mem_singleton, Present,
    not_exists, not_and, ne_eq, hzero]

theorem meets_obj_iff (permset : sec_acl_permset_t) :
    (obj_entry entry_type permset).Meets acl_mgt memory acl ↔ (obj_entry entry_type permset).Sound acl_mgt memory acl := by
  cases memory with
  | false =>
    have hrun : (obj_entry entry_type permset).run acl_mgt false acl = (.rpc_s_no_memory, acl) := rfl
    refine iff_of_true ⟨fun h => ?_, fun h => ?_, fun _ h => ?_⟩ (.inl rfl) <;> rw [hrun] at h
    · exact absurd rfl h
    · exact acl_status.noConfusion h
    · exact absurd rfl h
  | true =>
    -- once grown, the list stays so
    have hgrown : ∀ st, (obj_entry entry_type permset).run acl_mgt true acl = (st, acl.append zeroEntry) →
        st ≠ .error_status_ok → st ≠ .rpc_s_no_memory → ¬ (obj_entry entry_type permset).Meets acl_mgt true acl := by
      intro st hrun hfails hmemory hmeets
      have hleft := hmeets.leaves (by rw [hrun]; exact hfails) (by rw [hrun]; exact hmemory)
      rw [hrun] at hleft
      exact append_ne zeroEntry hleft
    have hnot : (true = false) ↔ False := by decide
    rw [Sound, hnot, false_or, Right, entry]
    cases hinfo : objEntry entry_type with
    | none =>
      refine iff_of_false (hgrown .sec_acl_invalid_entry_type ?_ (by decide) (by decide)) (by simp)
      simp [run, dce_acl_obj_add_obj_entry, incr__acl_ent_list, hinfo]
    | some info =>
      simp only [Option.map_some, Option.some.injEq, exists_eq_left']
      have hperms := check_perm_bits_ne_no_memory acl_mgt (acl.append zeroEntry) permset
      have hduplicate := check_duplicate_ne_no_memory entry_type none none
        (acl.append zeroEntry).sec_acl_entries
      have hwithin : WithinMaximum acl_mgt acl permset ↔
          dce_acl__check_perm_bits acl_mgt (acl.append zeroEntry) permset = .error_status_ok := check_perm_bits_eq_ok_iff.symm
      rw [and_assoc, hwithin, ← check_duplicate_zeroed_iff hinfo]
      by_cases hp : dce_acl__check_perm_bits acl_mgt (acl.append zeroEntry) permset = .error_status_ok
      · by_cases hd : dce_acl__check_duplicate entry_type none none (acl.append zeroEntry).sec_acl_entries = .error_status_ok
        · -- all checks pass: the zeroed entry is overwritten
          have hrun : (obj_entry entry_type permset).run acl_mgt true acl = (.error_status_ok, acl.append ⟨permset, info⟩) := by
            simp [run, dce_acl_obj_add_obj_entry, incr__acl_ent_list, hinfo, hp, hd, setLast_append]
          refine iff_of_true ⟨fun _ => ?_, fun _ => ?_, fun h => ?_⟩ ⟨hp, hd⟩
          · refine iff_of_true (by rw [hrun]) ⟨⟨permset, info⟩, by simp [entry, hinfo], hwithin.mpr hp, ?_⟩
            exact ((check_duplicate_zeroed_iff hinfo).mp hd).1
          · exact ⟨⟨permset, info⟩, by simp [entry, hinfo], by rw [hrun]⟩
          · exact absurd (by rw [hrun]) h
        · refine iff_of_false (hgrown _ ?_ hd hduplicate) (fun h => hd h.2)
          simp [run, dce_acl_obj_add_obj_entry, incr__acl_ent_list, hinfo, hp]
      · refine iff_of_false (hgrown _ ?_ hp hperms) (fun h => hp h.1)
        simp [run, dce_acl_obj_add_obj_entry, incr__acl_ent_list, hinfo]

theorem Meets.wellFormed (h : call.Meets acl_mgt memory acl) (hwf : acl.WellFormed)
    (hok : (call.run acl_mgt memory acl).1 = .error_status_ok) : (call.run acl_mgt memory acl).2.WellFormed := by
  obtain ⟨e, hentry, happended⟩ := h.appends hok
  obtain ⟨e', hentry', -, hnew⟩ := (h.succeeds (by rw [hok]; decide)).mp hok
  obtain rfl : e = e' := Option.some.inj (hentry.symm.trans hentry')
  rw [happended]
  refine List.pairwise_append.mpr ⟨hwf, List.pairwise_singleton .., ?_⟩
  intro ep hmem ep' hmem' heq
  rw [List.mem_singleton] at hmem'
  subst hmem'
  exact absurd ⟨ep, hmem, heq⟩ hnew

end AddCall

/-- The calls that build an ACL succeed exactly when they are right, append what they are for, and fail without a trace, where
they are sound; an ACL without duplicates then stays one. -/
theorem add_call_iff (acl_mgt : List acl_mgt_t) (memory : Bool) (acl : managed_acl_t) (call : AddCall) :
    (call.Meets acl_mgt memory acl ↔ call.Sound acl_mgt memory acl) ∧
      (call.Sound acl_mgt memory acl → acl.WellFormed → (call.run acl_mgt memory acl).1 = .error_status_ok →
        (call.run acl_mgt memory acl).2.WellFormed) := by
  have hiff : call.Meets acl_mgt memory acl ↔ call.Sound acl_mgt memory acl := by
    cases call with
    | id_entry entry_type permset id => exact AddCall.meets_id_iff entry_type permset id
    | obj_entry entry_type permset => exact AddCall.meets_obj_iff entry_type permset
    | foreign_entry entry_type permset realm id => exact AddCall.meets_foreign_iff entry_type permset realm id
  exact ⟨hiff, fun hsound hwf hok => (hiff.mpr hsound).wellFormed hwf hok⟩

/-- An ACL as `dce_acl_obj_init` leaves it, and the one manager. -/
def initAcl : managed_acl_t := ⟨⟨⟨uuid_g_nil_uuid⟩, []⟩, uuid_g_nil_uuid⟩

def initManager : acl_mgt_t := ⟨uuid_g_nil_uuid, 0x7f⟩

/-- The first entry for the owner is refused as a duplicate, and an entry without permissions stays in its place. -/
theorem user_obj_refused :
    initAcl.WellFormed ∧ (AddCall.obj_entry .user_obj 0x0f).Right [initManager] initAcl ∧
      (AddCall.obj_entry .user_obj 0x0f).run [initManager] true initAcl =
        (.sec_acl_duplicate_entry, initAcl.append ⟨0, .user_obj⟩) := by
  refine ⟨by decide, ⟨⟨0x0f, .user_obj⟩, rfl, ⟨initManager, rfl, by decide⟩, ?_⟩, by decide⟩
  rintro ⟨e, hmem, -⟩
  cases hmem

end dce.sec
