import Dce.Sec.AclCategories

open lib dce.rpc

namespace dce.sec

/-- The permissions of an entry join those found so far if the entry is for a group of the caller. -/
def joined (hit : Bool) (perms : sec_acl_permset_t) (found : Bool × sec_acl_permset_t) : Bool × sec_acl_permset_t :=
  if hit then (true, found.2 ||| perms) else found

theorem joined_joined (hit hit' : Bool) (perms : sec_acl_permset_t) (found : Bool × sec_acl_permset_t) :
    joined hit' perms (joined hit perms found) = joined (hit || hit') perms found := by
  cases hit <;> cases hit' <;> simp [joined, BitVec.or_assoc]

section pass

variable {pa_p : sec_id_pa_t uuid_t} {ap : sec_acl_t} {grp_id : Option uuid_t} {in_def_realm : Bool} {ep : sec_acl_entry_t}
  {mask_perms : sec_acl_permset_t}

theorem matchGroups_answers (gr_uuid : uuid_t) (perms : sec_acl_permset_t) (groups : List (sec_id_t uuid_t))
    (found : Bool × sec_acl_permset_t) :
    Answers (matchGroups gr_uuid perms found groups) (joined (groups.any fun gp => sameUuid gp.uuid gr_uuid) perms found) := by
  induction groups generalizing found with
  | nil => exact answers_pure
  | cons gp rest ih =>
    refine (uuid_equal_answers gp.uuid gr_uuid).bind ?_
    rw [List.any_cons, ← joined_joined]
    cases sameUuid gp.uuid gr_uuid with
    | true => exact ih (true, found.2 ||| perms)
    | false => exact ih found

theorem matchGroupsets_answers (gr_uuid realm : uuid_t) (perms : sec_acl_permset_t)
    (groupsets : List (sec_id_foreign_groupset_t uuid_t)) (found : Bool × sec_acl_permset_t) :
    Answers (matchGroupsets gr_uuid realm perms found groupsets)
      (joined (groupsets.any fun fgs => sameUuid fgs.realm.uuid realm && fgs.groups.any fun gp => sameUuid gp.uuid gr_uuid)
        perms found) := by
  induction groupsets generalizing found with
  | nil => exact answers_pure
  | cons fgs rest ih =>
    refine (uuid_equal_answers fgs.realm.uuid realm).bind ?_
    rw [List.any_cons, ← joined_joined]
    cases sameUuid fgs.realm.uuid realm with
    | true => exact (matchGroups_answers gr_uuid perms fgs.groups found).bind (ih _)
    | false => exact ih found

/-- An entry that the second pass cannot do without the group for. -/
def needsGroup (info : sec_acl_entry_u) : Bool := info = .group_obj || info = .group_obj_deleg

def groupTarget (pa_p : sec_id_pa_t uuid_t) (ap : sec_acl_t) (grp_id : Option uuid_t) : sec_acl_entry_u → Option (Bool × uuid_t × uuid_t)
  | .group_obj | .group_obj_deleg => grp_id.map fun grp_id => (inDefRealm pa_p ap, grp_id, ap.default_realm.uuid)
  | .group id | .group_deleg id => some (inDefRealm pa_p ap, id.uuid, ap.default_realm.uuid)
  | .foreign_group foreign_id | .for_group_deleg foreign_id =>
    some (sameUuid pa_p.realm.uuid foreign_id.realm.uuid, foreign_id.id.uuid, foreign_id.realm.uuid)
  | _ => none

theorem isMember_eq (info : sec_acl_entry_u) :
    isMember pa_p ap grp_id info = (groupTarget pa_p ap grp_id info).any fun t => hasGroup pa_p t.1 t.2.1 t.2.2 := by
  cases info <;> cases grp_id <;> rfl

theorem group_of_error (hneeds : needsGroup ep.entry_info = true) :
    Answers (group_of pa_p ap none in_def_realm ep).run (.error ()) := by
  obtain ⟨perms, info⟩ := ep
  obtain rfl | rfl : info = .group_obj ∨ info = .group_obj_deleg := by simpa [needsGroup] using hneeds
  · exact fun _ => rfl
  · exact fun _ => rfl

theorem group_of_answers (hgroup : needsGroup ep.entry_info = true → grp_id.isSome) :
    Answers (group_of pa_p ap grp_id (inDefRealm pa_p ap) ep).run (.ok (groupTarget pa_p ap grp_id ep.entry_info)) := by
  obtain ⟨perms, info⟩ := ep
  cases info with
  | group_obj | group_obj_deleg =>
    obtain ⟨grp_id, rfl⟩ := Option.isSome_iff_exists.mp (hgroup rfl)
    exact answers_ok
  | foreign_group foreign_id | for_group_deleg foreign_id =>
    exact (uuid_equal_answers pa_p.realm.uuid foreign_id.realm.uuid).lift.bind_ok answers_ok
  | _ => exact answers_ok

theorem groupAccess_cons {rest : List sec_acl_entry_t} {found : Bool × sec_acl_permset_t}
    {r : Except Unit (Bool × sec_acl_permset_t)} (hgroup : needsGroup ep.entry_info = true → grp_id.isSome)
    (hrest : Answers (groupAccess pa_p ap grp_id (inDefRealm pa_p ap) mask_perms
      (joined (isMember pa_p ap grp_id ep.entry_info) (MASKIT ep mask_perms) found) rest).run r) :
    Answers (groupAccess pa_p ap grp_id (inDefRealm pa_p ap) mask_perms found (ep :: rest)).run r := by
  refine (group_of_answers hgroup).bind_ok ?_
  rw [isMember_eq] at hrest
  cases htarget : groupTarget pa_p ap grp_id ep.entry_info with
  | none =>
    rw [htarget] at hrest
    exact hrest
  | some t =>
    obtain ⟨own, gr_uuid, realm⟩ := t
    rw [htarget] at hrest
    cases own with
    | true =>
      refine (uuid_equal_answers pa_p.group.uuid gr_uuid).lift.bind_ok ?_
      refine (matchGroups_answers gr_uuid (MASKIT ep mask_perms) pa_p.groups _).lift.bind_ok ?_
      have htwice := joined_joined (sameUuid pa_p.group.uuid gr_uuid)
        (pa_p.groups.any fun gp => sameUuid gp.uuid gr_uuid) (MASKIT ep mask_perms) found
      rw [joined.eq_def _ _ found] at htwice
      rw [htwice]
      exact hrest
    | false =>
      exact (matchGroupsets_answers gr_uuid realm (MASKIT ep mask_perms) pa_p.foreign_groupsets found).lift.bind_ok hrest

def memberPerms (pa_p : sec_id_pa_t uuid_t) (ap : sec_acl_t) (grp_id : Option uuid_t) (mask_perms : sec_acl_permset_t)
    (entries : List sec_acl_entry_t) : List sec_acl_permset_t :=
  (entries.filter (isMember pa_p ap grp_id ·.entry_info)).map (MASKIT · mask_perms)

theorem groupAccess_spec {entries : List sec_acl_entry_t} (found : Bool × sec_acl_permset_t)
    (hgroup : (∃ ep ∈ entries, needsGroup ep.entry_info = true) → grp_id.isSome) :
    Answers (groupAccess pa_p ap grp_id (inDefRealm pa_p ap) mask_perms found entries).run
      (.ok (found.1 || !(memberPerms pa_p ap grp_id mask_perms entries).isEmpty,
        found.2 ||| join (memberPerms pa_p ap grp_id mask_perms entries))) := by
  induction entries generalizing found with
  | nil =>
    have hsame : found = (found.1 || !(memberPerms pa_p ap grp_id mask_perms []).isEmpty,
        found.2 ||| join (memberPerms pa_p ap grp_id mask_perms [])) := by
      simp [memberPerms]
    rw [← hsame]
    exact answers_ok
  | cons ep rest ih =>
    refine groupAccess_cons (fun hneeds => hgroup ⟨ep, List.mem_cons_self, hneeds⟩) ?_
    have hlater : (∃ ep ∈ rest, needsGroup ep.entry_info = true) → grp_id.isSome := by
      rintro ⟨ep', hmem, hneeds⟩
      exact hgroup ⟨ep', List.mem_cons_of_mem _ hmem, hneeds⟩
    have hrest := ih (joined (isMember pa_p ap grp_id ep.entry_info) (MASKIT ep mask_perms) found) hlater
    cases hmember : isMember pa_p ap grp_id ep.entry_info with
    | false =>
      rw [hmember] at hrest
      simpa [memberPerms, hmember, joined] using hrest
    | true =>
      rw [hmember] at hrest
      simpa [memberPerms, hmember, joined, BitVec.or_assoc] using hrest

theorem groupAccess_error {entries : List sec_acl_entry_t} (found : Bool × sec_acl_permset_t)
    (hneeds : ∃ ep ∈ entries, needsGroup ep.entry_info = true) :
    Answers (groupAccess pa_p ap none (inDefRealm pa_p ap) mask_perms found entries).run (.error ()) := by
  induction entries generalizing found with
  | nil => simp at hneeds
  | cons ep rest ih =>
    by_cases hep : needsGroup ep.entry_info = true
    · exact (group_of_error hep).bind_error
    · refine groupAccess_cons (fun hneeds => absurd hneeds hep) (ih _ ?_)
      obtain ⟨ep', hmem, hneeds'⟩ := hneeds
      obtain rfl | hrest := List.mem_cons.mp hmem
      · exact absurd hneeds' hep
      · exact ⟨ep', hrest, hneeds'⟩

end pass

end dce.sec
