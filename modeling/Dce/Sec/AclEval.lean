import Dce.Lib.BitSets
import Dce.Sec.Identity

open lib dce.rpc

set_option linter.style.nameCheck false

namespace dce.sec

abbrev sec_acl_permset_t := BitVec 32

/-- `error_status_t`. The statuses of the credential calls are kept as they are. -/
inductive error_status_t where
  | error_status_ok
  | uuid_s_bad_version
  | sec_acl_expected_user_obj
  | sec_acl_expected_group_obj
  | sec_cred (code : BitVec 32)
  deriving DecidableEq

/-- The part of an ACL entry that depends on its type. -/
inductive sec_acl_entry_u where
  | user_obj
  | group_obj
  | other_obj
  | user (id : sec_id_t uuid_t)
  | group (id : sec_id_t uuid_t)
  | mask_obj
  | foreign_user (foreign_id : sec_id_foreign_t uuid_t)
  | foreign_group (foreign_id : sec_id_foreign_t uuid_t)
  | foreign_other (id : sec_id_t uuid_t)
  | unauthenticated
  | extended
  | any_other
  | user_obj_deleg
  | user_deleg (id : sec_id_t uuid_t)
  | for_user_deleg (foreign_id : sec_id_foreign_t uuid_t)
  | group_obj_deleg
  | group_deleg (id : sec_id_t uuid_t)
  | for_group_deleg (foreign_id : sec_id_foreign_t uuid_t)
  | other_obj_deleg
  | for_other_deleg (id : sec_id_t uuid_t)
  | any_other_deleg
  deriving DecidableEq

structure sec_acl_entry_t where
  perms : sec_acl_permset_t
  entry_info : sec_acl_entry_u
  deriving DecidableEq

structure sec_acl_t where
  default_realm : sec_id_t uuid_t
  sec_acl_entries : List sec_acl_entry_t
  deriving DecidableEq

def MAX_PERMISSIONS : sec_acl_permset_t := ~~~0
def dce_acl_c_no_permissions : sec_acl_permset_t := 0

/-- `MASKIT`: the permissions of an entry behind the mask, if it is one that the mask is for. -/
def MASKIT (ep : sec_acl_entry_t) (mask_perms : sec_acl_permset_t) : sec_acl_permset_t :=
  match ep.entry_info with
  | .user_obj | .user_obj_deleg | .other_obj | .other_obj_deleg | .mask_obj | .unauthenticated => ep.perms
  | _ => ep.perms &&& mask_perms

/-- `CHECK_STRUCTURE`: the reserved bits are of a known variant. -/
def CHECK_STRUCTURE (uuid : uuid_t) : Bool :=
  uuid.clock_seq_hi_and_reserved &&& 0x80 = 0x00 || uuid.clock_seq_hi_and_reserved &&& 0xc0 = 0x80 ||
    uuid.clock_seq_hi_and_reserved &&& 0xe0 = 0xc0

/-- `uuid_equal`, which leaves its status where the caller has the last one. -/
def uuid_equal (uuid1 uuid2 : uuid_t) : StateM error_status_t Bool := do
  if !CHECK_STRUCTURE uuid1 then
    set error_status_t.uuid_s_bad_version
    return false
  if !CHECK_STRUCTURE uuid2 then
    set error_status_t.uuid_s_bad_version
    return false
  set error_status_t.error_status_ok
  return uuid1 = uuid2

def uuid_g_nil_uuid : uuid_t := ⟨0, 0, 0, 0, 0, ⟨[0, 0, 0, 0, 0, 0], rfl⟩⟩

def uuid_is_nil (uuid : uuid_t) : StateM error_status_t Bool := do
  if !CHECK_STRUCTURE uuid then
    set error_status_t.uuid_s_bad_version
    return false
  set error_status_t.error_status_ok
  return uuid = uuid_g_nil_uuid

/-- What the first pass over the entries finds: the last entry of every kind that matches the caller. -/
structure Found where
  user_obj_ep : Option sec_acl_entry_t
  user_ep : Option sec_acl_entry_t
  for_user_ep : Option sec_acl_entry_t
  other_obj_ep : Option sec_acl_entry_t
  for_other_ep : Option sec_acl_entry_t
  any_other_ep : Option sec_acl_entry_t
  user_obj_del_ep : Option sec_acl_entry_t
  user_del_ep : Option sec_acl_entry_t
  for_user_del_ep : Option sec_acl_entry_t
  other_obj_del_ep : Option sec_acl_entry_t
  for_other_del_ep : Option sec_acl_entry_t
  any_other_del_ep : Option sec_acl_entry_t
  check_groups : Bool
  mask_perms : sec_acl_permset_t
  unauth_mask : sec_acl_permset_t

def Found.start (unauth_mask : sec_acl_permset_t) : Found :=
  ⟨none, none, none, none, none, none, none, none, none, none, none, none, false, MAX_PERMISSIONS, unauth_mask⟩

abbrev Returns := ExceptT Unit (StateM error_status_t)

section alg

variable (do_deleg : Bool) (pa_p : sec_id_pa_t uuid_t) (ap : sec_acl_t) (own_id grp_id : Option uuid_t)

/-- The test of an entry that names a foreign principal: the principal, then `SAME_FOREIGN_REALM`. -/
def same_foreign_user (foreign_id : sec_id_foreign_t uuid_t) : Returns Bool := do
  if ← uuid_equal pa_p.principal.uuid foreign_id.id.uuid then
    uuid_equal pa_p.realm.uuid foreign_id.realm.uuid
  else return false

/-- The test of an entry for the owner. If there is one, the owner cannot be NULL. -/
def same_owner (in_def_realm : Bool) : Returns Bool := do
  match own_id with
  | none =>
    set error_status_t.sec_acl_expected_user_obj
    throw ()
  | some own_id => if in_def_realm then uuid_equal own_id pa_p.principal.uuid else return false

def same_user (in_def_realm : Bool) (id : sec_id_t uuid_t) : Returns Bool := do
  if in_def_realm then uuid_equal pa_p.principal.uuid id.uuid else return false

/-- One entry in the first pass. The types of delegate entries have a `switch` of their own. -/
def preprocess (in_def_realm : Bool) (f : Found) (ep : sec_acl_entry_t) : Returns Found := do
  match ep.entry_info with
  | .user id => return if ← same_user pa_p in_def_realm id then { f with user_ep := some ep } else f
  | .foreign_user foreign_id => return if ← same_foreign_user pa_p foreign_id then { f with for_user_ep := some ep } else f
  | .other_obj => return if in_def_realm then { f with other_obj_ep := some ep } else f
  | .foreign_other id => return if ← uuid_equal pa_p.realm.uuid id.uuid then { f with for_other_ep := some ep } else f
  | .unauthenticated => return { f with unauth_mask := ep.perms }
  | .group _ | .foreign_group _ | .group_obj => return { f with check_groups := true }
  | .any_other => return { f with any_other_ep := some ep }
  | .mask_obj => return { f with mask_perms := ep.perms }
  | .user_obj => return if ← same_owner pa_p own_id in_def_realm then { f with user_obj_ep := some ep } else f
  | .extended => return f
  | deleg =>
    if !do_deleg then return f
    match deleg with
    | .user_obj_deleg => return if ← same_owner pa_p own_id in_def_realm then { f with user_obj_del_ep := some ep } else f
    | .user_deleg id => return if ← same_user pa_p in_def_realm id then { f with user_del_ep := some ep } else f
    | .for_user_deleg foreign_id =>
      return if ← same_foreign_user pa_p foreign_id then { f with for_user_del_ep := some ep } else f
    | .group_deleg _ | .for_group_deleg _ | .group_obj_deleg => return { f with check_groups := true }
    | .other_obj_deleg => return if in_def_realm then { f with other_obj_del_ep := some ep } else f
    | .for_other_deleg id => return if ← uuid_equal pa_p.realm.uuid id.uuid then { f with for_other_del_ep := some ep } else f
    | .any_other_deleg => return { f with any_other_del_ep := some ep }
    | _ => return f

/-- The first pass. When it returns early, what it found so far is kept for the sake of `unauth_mask`. -/
def preprocessAll (in_def_realm : Bool) : Found → List sec_acl_entry_t → StateM error_status_t (Found × Bool)
  | f, [] => return (f, true)
  | f, ep :: rest => do
    match ← (preprocess do_deleg pa_p own_id in_def_realm f ep).run with
    | .ok f => preprocessAll in_def_realm f rest
    | .error () => return (f, false)

/-- The entry's permissions for every group in a list that is the entry's group. -/
def matchGroups (gr_uuid : uuid_t) (perms : sec_acl_permset_t) :
    Bool × sec_acl_permset_t → List (sec_id_t uuid_t) → StateM error_status_t (Bool × sec_acl_permset_t)
  | found, [] => return found
  | found, gp :: rest => do
    if ← uuid_equal gp.uuid gr_uuid then matchGroups gr_uuid perms (true, found.2 ||| perms) rest
    else matchGroups gr_uuid perms found rest

/-- The entry's permissions for every foreign group set of the entry's realm. -/
def matchGroupsets (gr_uuid realm : uuid_t) (perms : sec_acl_permset_t) :
    Bool × sec_acl_permset_t → List (sec_id_foreign_groupset_t uuid_t) → StateM error_status_t (Bool × sec_acl_permset_t)
  | found, [] => return found
  | found, fgs :: rest => do
    if ← uuid_equal fgs.realm.uuid realm then
      let found ← matchGroups gr_uuid perms found fgs.groups
      matchGroupsets gr_uuid realm perms found rest
    else matchGroupsets gr_uuid realm perms found rest

/-- The group that an entry is for, with its realm, and whether the caller's own groups are of that realm. -/
def group_of (in_def_realm : Bool) (ep : sec_acl_entry_t) : Returns (Option (Bool × uuid_t × uuid_t)) := do
  match ep.entry_info with
  | .group_obj | .group_obj_deleg =>
    match grp_id with
    | none =>
      set error_status_t.sec_acl_expected_group_obj
      throw ()
    | some grp_id => return some (in_def_realm, grp_id, ap.default_realm.uuid)
  | .group id | .group_deleg id => return some (in_def_realm, id.uuid, ap.default_realm.uuid)
  | .foreign_group foreign_id | .for_group_deleg foreign_id =>
    return some (← uuid_equal pa_p.realm.uuid foreign_id.realm.uuid, foreign_id.id.uuid, foreign_id.realm.uuid)
  | _ => return none

/-- The second pass: whether a group was found, and the permissions of all entries for groups of the caller. -/
def groupAccess (in_def_realm : Bool) (mask_perms : sec_acl_permset_t) :
    Bool × sec_acl_permset_t → List sec_acl_entry_t → Returns (Bool × sec_acl_permset_t)
  | found, [] => return found
  | found, ep :: rest => do
    match ← group_of pa_p ap grp_id in_def_realm ep with
    | none => groupAccess in_def_realm mask_perms found rest
    | some (true, gr_uuid, _) =>
      let perms := MASKIT ep mask_perms
      let found := if ← uuid_equal pa_p.group.uuid gr_uuid then (true, found.2 ||| perms) else found
      let found ← matchGroups gr_uuid perms found pa_p.groups
      groupAccess in_def_realm mask_perms found rest
    | some (false, gr_uuid, realm) =>
      let found ← matchGroupsets gr_uuid realm (MASKIT ep mask_perms) found pa_p.foreign_groupsets
      groupAccess in_def_realm mask_perms found rest

/-- One kind of entry and the one for its delegates: whether one of them decides, and the permissions. -/
def kind (perms : sec_acl_entry_t → sec_acl_permset_t) (ep del_ep : Option sec_acl_entry_t) : Option sec_acl_permset_t :=
  match ep, if do_deleg then del_ep else none with
  | none, none => none
  | some ep, none => some (perms ep)
  | none, some del_ep => some (dce_acl_c_no_permissions ||| perms del_ep)
  | some ep, some del_ep => some (perms ep ||| perms del_ep)

/-- `dce_acl__permset_alg`: the permissions and `unauth_mask` it leaves. -/
def dce_acl__permset_alg (unauth_mask : sec_acl_permset_t) :
    StateM error_status_t (sec_acl_permset_t × sec_acl_permset_t) := do
  set error_status_t.error_status_ok
  let in_def_realm ← do
    if ← uuid_equal pa_p.realm.uuid ap.default_realm.uuid then pure true else uuid_is_nil ap.default_realm.uuid
  let (f, goesOn) ← preprocessAll do_deleg pa_p own_id in_def_realm (.start unauth_mask) ap.sec_acl_entries
  if !goesOn then return (dce_acl_c_no_permissions, f.unauth_mask)
  let masked := (MASKIT · f.mask_perms)
  match kind do_deleg (·.perms) f.user_obj_ep f.user_obj_del_ep with
  | some perms => return (perms, f.unauth_mask)
  | none =>
  match kind do_deleg masked f.user_ep f.user_del_ep with
  | some perms => return (perms, f.unauth_mask)
  | none =>
  match kind do_deleg masked f.for_user_ep f.for_user_del_ep with
  | some perms => return (perms, f.unauth_mask)
  | none =>
  let groups ← if f.check_groups then
      (groupAccess pa_p ap grp_id in_def_realm f.mask_perms (false, dce_acl_c_no_permissions) ap.sec_acl_entries).run
    else pure (.ok (false, dce_acl_c_no_permissions))
  match groups with
  | .error () => return (dce_acl_c_no_permissions, f.unauth_mask)
  | .ok (true, group_access) => return (group_access, f.unauth_mask)
  | .ok (false, _) =>
  match kind do_deleg masked f.other_obj_ep f.other_obj_del_ep with
  | some perms => return (perms, f.unauth_mask)
  | none =>
  match kind do_deleg masked f.for_other_ep f.for_other_del_ep with
  | some perms => return (perms, f.unauth_mask)
  | none =>
  match kind do_deleg masked f.any_other_ep f.any_other_del_ep with
  | some perms => return (perms, f.unauth_mask)
  | none => return (dce_acl_c_no_permissions, f.unauth_mask)

end alg

end dce.sec
