import Dce.Lib.Categories
import Dce.Sec.AclEval

open lib dce.rpc

namespace dce.sec

/-- What `uuid_equal` finds of two identifiers. -/
def sameUuid (uuid1 uuid2 : uuid_t) : Bool := CHECK_STRUCTURE uuid1 && CHECK_STRUCTURE uuid2 && uuid1 = uuid2

/-- What `uuid_is_nil` finds of an identifier. -/
def nilUuid (uuid : uuid_t) : Bool := CHECK_STRUCTURE uuid && uuid = uuid_g_nil_uuid

theorem sameUuid_eq {uuid1 uuid2 : uuid_t} (h : sameUuid uuid1 uuid2 = true) : uuid1 = uuid2 := by
  simp only [sameUuid, Bool.and_eq_true, decide_eq_true_eq] at h
  exact h.2

theorem uuid_equal_answers (uuid1 uuid2 : uuid_t) : Answers (uuid_equal uuid1 uuid2) (sameUuid uuid1 uuid2) := by
  intro st
  unfold uuid_equal sameUuid
  cases CHECK_STRUCTURE uuid1 with
  | false => rfl
  | true =>
    cases CHECK_STRUCTURE uuid2 with
    | false => rfl
    | true => rfl

theorem uuid_is_nil_answers (uuid : uuid_t) : Answers (uuid_is_nil uuid) (nilUuid uuid) := by
  intro st
  unfold uuid_is_nil nilUuid
  cases CHECK_STRUCTURE uuid <;> rfl

/-- The categories of which one entry matches at most. -/
inductive Category where
  | user_obj
  | user
  | foreign_user
  | other_obj
  | foreign_other
  | any_other
  deriving DecidableEq

/-- The category of an entry, and whether it is the one for delegates. -/
def categoryOf : sec_acl_entry_u → Option (Category × Bool)
  | .user_obj => some (.user_obj, false)
  | .user_obj_deleg => some (.user_obj, true)
  | .user _ => some (.user, false)
  | .user_deleg _ => some (.user, true)
  | .foreign_user _ => some (.foreign_user, false)
  | .for_user_deleg _ => some (.foreign_user, true)
  | .other_obj => some (.other_obj, false)
  | .other_obj_deleg => some (.other_obj, true)
  | .foreign_other _ => some (.foreign_other, false)
  | .for_other_deleg _ => some (.foreign_other, true)
  | .any_other => some (.any_other, false)
  | .any_other_deleg => some (.any_other, true)
  | _ => none

/-- Whether an entry for groups is one for delegates. -/
def groupOf : sec_acl_entry_u → Option Bool
  | .group_obj | .group _ | .foreign_group _ => some false
  | .group_obj_deleg | .group_deleg _ | .for_group_deleg _ => some true
  | _ => none

section subject

variable (pa_p : sec_id_pa_t uuid_t) (ap : sec_acl_t) (own_id grp_id : Option uuid_t)

def inDefRealm : Bool := sameUuid pa_p.realm.uuid ap.default_realm.uuid || nilUuid ap.default_realm.uuid

def names : sec_acl_entry_u → Bool
  | .user_obj | .user_obj_deleg => own_id.any fun own_id => inDefRealm pa_p ap && sameUuid own_id pa_p.principal.uuid
  | .user id | .user_deleg id => inDefRealm pa_p ap && sameUuid pa_p.principal.uuid id.uuid
  | .foreign_user foreign_id | .for_user_deleg foreign_id =>
    sameUuid pa_p.principal.uuid foreign_id.id.uuid && sameUuid pa_p.realm.uuid foreign_id.realm.uuid
  | .other_obj | .other_obj_deleg => inDefRealm pa_p ap
  | .foreign_other id | .for_other_deleg id => sameUuid pa_p.realm.uuid id.uuid
  | .any_other | .any_other_deleg => true
  | _ => false

/-- The entry is one of a category and names the caller. -/
def Matches (c : Category) (deleg : Bool) (ep : sec_acl_entry_t) : Bool :=
  categoryOf ep.entry_info = some (c, deleg) && names pa_p ap own_id ep.entry_info

/-- The caller has a group, among the groups of its own realm or those of a foreign one. -/
def hasGroup (own : Bool) (gr_uuid realm : uuid_t) : Bool :=
  if own then sameUuid pa_p.group.uuid gr_uuid || pa_p.groups.any fun gp => sameUuid gp.uuid gr_uuid
  else pa_p.foreign_groupsets.any fun fgs =>
    sameUuid fgs.realm.uuid realm && fgs.groups.any fun gp => sameUuid gp.uuid gr_uuid

def isMember : sec_acl_entry_u → Bool
  | .group_obj | .group_obj_deleg => grp_id.any fun grp_id => hasGroup pa_p (inDefRealm pa_p ap) grp_id ap.default_realm.uuid
  | .group id | .group_deleg id => hasGroup pa_p (inDefRealm pa_p ap) id.uuid ap.default_realm.uuid
  | .foreign_group foreign_id | .for_group_deleg foreign_id =>
    hasGroup pa_p (sameUuid pa_p.realm.uuid foreign_id.realm.uuid) foreign_id.id.uuid foreign_id.realm.uuid
  | _ => false

end subject

section passes

variable {do_deleg : Bool} {pa_p : sec_id_pa_t uuid_t} {ap : sec_acl_t} {own_id grp_id : Option uuid_t}
  {in_def_realm : Bool} {f : Found} {ep : sec_acl_entry_t} {gr_uuid realm : uuid_t} {perms : sec_acl_permset_t}

/-- The place where the first pass keeps the entry of a category. -/
def Found.slot (f : Found) : Category → Bool → Option sec_acl_entry_t
  | .user_obj, false => f.user_obj_ep
  | .user_obj, true => f.user_obj_del_ep
  | .user, false => f.user_ep
  | .user, true => f.user_del_ep
  | .foreign_user, false => f.for_user_ep
  | .foreign_user, true => f.for_user_del_ep
  | .other_obj, false => f.other_obj_ep
  | .other_obj, true => f.other_obj_del_ep
  | .foreign_other, false => f.for_other_ep
  | .foreign_other, true => f.for_other_del_ep
  | .any_other, false => f.any_other_ep
  | .any_other, true => f.any_other_del_ep

/-- An entry that the algorithm cannot do without the owner for. -/
def needsOwner (do_deleg : Bool) (info : sec_acl_entry_u) : Bool := info = .user_obj || do_deleg && info = .user_obj_deleg

/-- An entry that makes the algorithm look at groups. -/
def readsGroups (do_deleg : Bool) (info : sec_acl_entry_u) : Bool :=
  groupOf info = some false || do_deleg && groupOf info = some true

/-- What the first pass keeps of one more entry. -/
structure Entered (do_deleg : Bool) (pa_p : sec_id_pa_t uuid_t) (ap : sec_acl_t) (own_id : Option uuid_t) (ep : sec_acl_entry_t)
    (f f' : Found) : Prop where
  slot : ∀ c deleg, f'.slot c deleg =
    if (deleg → do_deleg) ∧ Matches pa_p ap own_id c deleg ep then some ep else f.slot c deleg
  check_groups : f'.check_groups = (f.check_groups || readsGroups do_deleg ep.entry_info)
  mask_perms : f'.mask_perms = if ep.entry_info = .mask_obj then ep.perms else f.mask_perms

theorem same_user_answers (in_def_realm : Bool) (id : sec_id_t uuid_t) :
    Answers (same_user pa_p in_def_realm id).run (.ok (in_def_realm && sameUuid pa_p.principal.uuid id.uuid)) := by
  cases in_def_realm with
  | false => exact answers_ok
  | true => exact (uuid_equal_answers pa_p.principal.uuid id.uuid).lift

theorem same_foreign_user_answers (foreign_id : sec_id_foreign_t uuid_t) :
    Answers (same_foreign_user pa_p foreign_id).run
      (.ok (sameUuid pa_p.principal.uuid foreign_id.id.uuid && sameUuid pa_p.realm.uuid foreign_id.realm.uuid)) := by
  refine (uuid_equal_answers pa_p.principal.uuid foreign_id.id.uuid).lift.bind_ok ?_
  cases sameUuid pa_p.principal.uuid foreign_id.id.uuid with
  | false => exact answers_ok
  | true => exact (uuid_equal_answers pa_p.realm.uuid foreign_id.realm.uuid).lift

theorem same_owner_none : Answers (same_owner pa_p none in_def_realm).run (.error ()) := fun _ => rfl

theorem same_owner_some (own_id : uuid_t) :
    Answers (same_owner pa_p (some own_id) in_def_realm).run (.ok (in_def_realm && sameUuid own_id pa_p.principal.uuid)) := by
  cases in_def_realm with
  | false => exact answers_ok
  | true => exact (uuid_equal_answers own_id pa_p.principal.uuid).lift

def Found.put (f : Found) (ep : sec_acl_entry_t) : Category → Bool → Found
  | .user_obj, false => { f with user_obj_ep := some ep }
  | .user_obj, true => { f with user_obj_del_ep := some ep }
  | .user, false => { f with user_ep := some ep }
  | .user, true => { f with user_del_ep := some ep }
  | .foreign_user, false => { f with for_user_ep := some ep }
  | .foreign_user, true => { f with for_user_del_ep := some ep }
  | .other_obj, false => { f with other_obj_ep := some ep }
  | .other_obj, true => { f with other_obj_del_ep := some ep }
  | .foreign_other, false => { f with for_other_ep := some ep }
  | .foreign_other, true => { f with for_other_del_ep := some ep }
  | .any_other, false => { f with any_other_ep := some ep }
  | .any_other, true => { f with any_other_del_ep := some ep }

theorem slot_put (c c' : Category) (deleg deleg' : Bool) :
    (f.put ep c deleg).slot c' deleg' = if c' = c ∧ deleg' = deleg then some ep else f.slot c' deleg' := by
  cases c <;> cases deleg <;> cases c' <;> cases deleg' <;> rfl

theorem put_check_groups (c : Category) (deleg : Bool) : (f.put ep c deleg).check_groups = f.check_groups := by
  cases c <;> cases deleg <;> rfl

theorem put_mask_perms (c : Category) (deleg : Bool) : (f.put ep c deleg).mask_perms = f.mask_perms := by
  cases c <;> cases deleg <;> rfl

theorem groupOf_of_category {info : sec_acl_entry_u} {c : Category} {deleg : Bool} (hcategory : categoryOf info = some (c, deleg)) :
    groupOf info = none ∧ info ≠ .mask_obj := by
  cases info <;> simp_all [categoryOf, groupOf]

theorem Entered.of_put {c : Category} {deleg : Bool} (hcategory : categoryOf ep.entry_info = some (c, deleg))
    (hread : deleg = true → do_deleg = true) :
    Entered do_deleg pa_p ap own_id ep f (if names pa_p ap own_id ep.entry_info then f.put ep c deleg else f) := by
  obtain ⟨hgroup, hmask⟩ := groupOf_of_category hcategory
  constructor
  · intro c' deleg'
    by_cases hsame : c' = c ∧ deleg' = deleg
    · obtain ⟨rfl, rfl⟩ := hsame
      cases hnames : names pa_p ap own_id ep.entry_info with
      | true =>
        have hmatches : Matches pa_p ap own_id c' deleg' ep = true := by simp [Matches, hcategory, hnames]
        rw [if_pos rfl, slot_put, if_pos ⟨rfl, rfl⟩, if_pos ⟨hread, hmatches⟩]
      | false => simp [Matches, hnames]
    · have hother : Matches pa_p ap own_id c' deleg' ep = false := by
        simp only [Matches, hcategory, Option.some.injEq, Prod.mk.injEq]
        rw [Bool.and_eq_false_iff]
        exact .inl (decide_eq_false fun h => hsame ⟨h.1.symm, h.2.symm⟩)
      have hkept : ¬ ((deleg' = true → do_deleg = true) ∧ Matches pa_p ap own_id c' deleg' ep = true) := by simp [hother]
      rw [if_neg hkept]
      cases names pa_p ap own_id ep.entry_info with
      | true => rw [if_pos rfl, slot_put, if_neg hsame]
      | false => rfl
  · split_ifs <;> simp [put_check_groups, readsGroups, hgroup]
  · split_ifs <;> simp_all [put_mask_perms]

theorem Entered.skipped {c : Category} (hcategory : categoryOf ep.entry_info = some (c, true)) :
    Entered false pa_p ap own_id ep f f := by
  obtain ⟨hgroup, hmask⟩ := groupOf_of_category hcategory
  constructor
  · intro c' deleg'
    rw [if_neg]
    rintro ⟨hread, hmatches⟩
    simp only [Matches, hcategory, Option.some.injEq, Prod.mk.injEq, Bool.and_eq_true, decide_eq_true_eq] at hmatches
    exact Bool.false_ne_true (hread hmatches.1.2.symm)
  · simp [readsGroups, hgroup]
  · rw [if_neg hmask]

theorem Entered.of_no_category {f' : Found} (hcategory : categoryOf ep.entry_info = none) (hslot : f'.slot = f.slot)
    (hcheck : f'.check_groups = (f.check_groups || readsGroups do_deleg ep.entry_info))
    (hmask : f'.mask_perms = if ep.entry_info = .mask_obj then ep.perms else f.mask_perms) :
    Entered do_deleg pa_p ap own_id ep f f' := by
  refine ⟨fun c deleg => ?_, hcheck, hmask⟩
  rw [if_neg (by simp [Matches, hcategory]), hslot]

theorem preprocess_error (hneeds : needsOwner do_deleg ep.entry_info = true) :
    Answers (preprocess do_deleg pa_p none in_def_realm f ep).run (.error ()) := by
  obtain ⟨perms, info⟩ := ep
  obtain rfl | ⟨rfl, rfl⟩ : info = .user_obj ∨ do_deleg = true ∧ info = .user_obj_deleg := by
    simpa [needsOwner] using hneeds
  · exact same_owner_none.bind_error
  · exact same_owner_none.bind_error

theorem preprocess_spec (pa_p : sec_id_pa_t uuid_t) (ap : sec_acl_t) (own_id : Option uuid_t) (f : Found)
    (howner : needsOwner do_deleg ep.entry_info = true → own_id.isSome) :
    ∃ f', Answers (preprocess do_deleg pa_p own_id (inDefRealm pa_p ap) f ep).run (.ok f') ∧
      Entered do_deleg pa_p ap own_id ep f f' := by
  obtain ⟨perms, info⟩ := ep
  have hnever : false = true → do_deleg = true := fun h => absurd h Bool.false_ne_true
  cases info with
  | user id => exact ⟨_, (same_user_answers _ id).bind_ok answers_ok, .of_put (c := .user) rfl hnever⟩
  | foreign_user foreign_id =>
    exact ⟨_, (same_foreign_user_answers foreign_id).bind_ok answers_ok, .of_put (c := .foreign_user) rfl hnever⟩
  | other_obj => exact ⟨_, answers_ok, .of_put (c := .other_obj) rfl hnever⟩
  | foreign_other id =>
    exact ⟨_, (uuid_equal_answers _ id.uuid).lift.bind_ok answers_ok, .of_put (c := .foreign_other) rfl hnever⟩
  | any_other => exact ⟨_, answers_ok, .of_put (c := .any_other) rfl hnever⟩
  | user_obj =>
    obtain ⟨own_id, rfl⟩ := Option.isSome_iff_exists.mp (howner rfl)
    exact ⟨_, (same_owner_some own_id).bind_ok answers_ok, .of_put (c := .user_obj) rfl hnever⟩
  | unauthenticated | extended | mask_obj =>
    exact ⟨_, answers_ok, .of_no_category rfl rfl (by simp [readsGroups, groupOf]) (by simp)⟩
  | group | foreign_group | group_obj =>
    exact ⟨_, answers_ok, .of_no_category rfl rfl (by simp [readsGroups, groupOf]) (by simp)⟩
  | user_obj_deleg =>
    cases do_deleg with
    | false => exact ⟨f, answers_ok, .skipped (c := .user_obj) rfl⟩
    | true =>
      obtain ⟨own_id, rfl⟩ := Option.isSome_iff_exists.mp (howner rfl)
      exact ⟨_, (same_owner_some own_id).bind_ok answers_ok, .of_put (c := .user_obj) rfl id⟩
  | user_deleg userId =>
    cases do_deleg with
    | false => exact ⟨f, answers_ok, .skipped (c := .user) rfl⟩
    | true => exact ⟨_, (same_user_answers _ userId).bind_ok answers_ok, .of_put (c := .user) rfl id⟩
  | for_user_deleg foreign_id =>
    cases do_deleg with
    | false => exact ⟨f, answers_ok, .skipped (c := .foreign_user) rfl⟩
    | true =>
      exact ⟨_, (same_foreign_user_answers foreign_id).bind_ok answers_ok, .of_put (c := .foreign_user) rfl id⟩
  | other_obj_deleg =>
    cases do_deleg with
    | false => exact ⟨f, answers_ok, .skipped (c := .other_obj) rfl⟩
    | true => exact ⟨_, answers_ok, .of_put (c := .other_obj) rfl id⟩
  | for_other_deleg realmId =>
    cases do_deleg with
    | false => exact ⟨f, answers_ok, .skipped (c := .foreign_other) rfl⟩
    | true =>
      exact ⟨_, (uuid_equal_answers _ realmId.uuid).lift.bind_ok answers_ok, .of_put (c := .foreign_other) rfl id⟩
  | any_other_deleg =>
    cases do_deleg with
    | false => exact ⟨f, answers_ok, .skipped (c := .any_other) rfl⟩
    | true => exact ⟨_, answers_ok, .of_put (c := .any_other) rfl id⟩
  | group_deleg | for_group_deleg | group_obj_deleg =>
    cases do_deleg with
    | false => exact ⟨f, answers_ok, .of_no_category rfl rfl (by simp [readsGroups, groupOf]) (by simp)⟩
    | true => exact ⟨_, answers_ok, .of_no_category rfl rfl (by simp [readsGroups, groupOf]) (by simp)⟩

def lastMatch (do_deleg : Bool) (pa_p : sec_id_pa_t uuid_t) (ap : sec_acl_t) (own_id : Option uuid_t) (c : Category)
    (deleg : Bool) (entries : List sec_acl_entry_t) : Option sec_acl_entry_t :=
  if deleg → do_deleg then entries.reverse.find? (Matches pa_p ap own_id c deleg) else none

/-- What the whole first pass keeps. -/
structure Kept (do_deleg : Bool) (pa_p : sec_id_pa_t uuid_t) (ap : sec_acl_t) (own_id : Option uuid_t)
    (entries : List sec_acl_entry_t) (f f' : Found) : Prop where
  slot : ∀ c deleg, f'.slot c deleg = (lastMatch do_deleg pa_p ap own_id c deleg entries).or (f.slot c deleg)
  check_groups : f'.check_groups = (f.check_groups || entries.any (readsGroups do_deleg ·.entry_info))
  mask_perms : f'.mask_perms = ((entries.reverse.find? (·.entry_info = .mask_obj)).map (·.perms)).getD f.mask_perms

theorem Kept.nil : Kept do_deleg pa_p ap own_id [] f f := by
  refine ⟨fun c deleg => ?_, ?_, rfl⟩
  · simp [lastMatch]
  · simp

theorem Kept.cons {rest : List sec_acl_entry_t} {f' f'' : Found} (hentered : Entered do_deleg pa_p ap own_id ep f f')
    (hkept : Kept do_deleg pa_p ap own_id rest f' f'') : Kept do_deleg pa_p ap own_id (ep :: rest) f f'' := by
  constructor
  · intro c deleg
    rw [hkept.slot, hentered.slot, lastMatch, lastMatch]
    by_cases hread : deleg = true → do_deleg = true
    · rw [if_pos hread, if_pos hread, List.reverse_cons, List.find?_append, Option.or_assoc]
      congr 1
      by_cases hmatches : Matches pa_p ap own_id c deleg ep = true
      · rw [if_pos ⟨hread, hmatches⟩]
        simp [hmatches]
      · rw [if_neg fun h => hmatches h.2]
        simp [hmatches]
    · simp [hread]
  · rw [hkept.check_groups, hentered.check_groups, List.any_cons, Bool.or_assoc]
  · rw [hkept.mask_perms, hentered.mask_perms, List.reverse_cons, List.find?_append]
    cases rest.reverse.find? (·.entry_info = .mask_obj) with
    | some last => rfl
    | none => by_cases hmask : ep.entry_info = .mask_obj <;> simp [hmask]

theorem preprocessAll_spec (pa_p : sec_id_pa_t uuid_t) (ap : sec_acl_t) (f : Found) {entries : List sec_acl_entry_t}
    (howner : (∃ ep ∈ entries, needsOwner do_deleg ep.entry_info = true) → own_id.isSome) :
    ∃ f', Answers (preprocessAll do_deleg pa_p own_id (inDefRealm pa_p ap) f entries) (f', true) ∧
      Kept do_deleg pa_p ap own_id entries f f' := by
  induction entries generalizing f with
  | nil => exact ⟨f, answers_pure, .nil⟩
  | cons ep rest ih =>
    obtain ⟨f', hanswers, hentered⟩ := preprocess_spec pa_p ap own_id f fun hneeds => howner ⟨ep, List.mem_cons_self, hneeds⟩
    have hlater : (∃ ep ∈ rest, needsOwner do_deleg ep.entry_info = true) → own_id.isSome := by
      rintro ⟨ep', hmem, hneeds⟩
      exact howner ⟨ep', List.mem_cons_of_mem _ hmem, hneeds⟩
    obtain ⟨f'', hrest, hkept⟩ := ih f' hlater
    exact ⟨f'', hanswers.bind hrest, .cons hentered hkept⟩

theorem preprocessAll_error (pa_p : sec_id_pa_t uuid_t) (ap : sec_acl_t) (f : Found) {entries : List sec_acl_entry_t}
    (hneeds : ∃ ep ∈ entries, needsOwner do_deleg ep.entry_info = true) :
    ∃ f', Answers (preprocessAll do_deleg pa_p none (inDefRealm pa_p ap) f entries) (f', false) := by
  induction entries generalizing f with
  | nil => simp at hneeds
  | cons ep rest ih =>
    by_cases hep : needsOwner do_deleg ep.entry_info = true
    · exact ⟨f, (preprocess_error hep).bind answers_pure⟩
    · obtain ⟨f', hanswers, -⟩ := preprocess_spec pa_p ap none f fun hneeds => absurd hneeds hep
      have hlater : ∃ ep ∈ rest, needsOwner do_deleg ep.entry_info = true := by
        obtain ⟨ep', hmem, hneeds'⟩ := hneeds
        obtain rfl | hrest := List.mem_cons.mp hmem
        · exact absurd hneeds' hep
        · exact ⟨ep', hrest, hneeds'⟩
      obtain ⟨f'', hrest⟩ := ih f' hlater
      exact ⟨f'', hanswers.bind hrest⟩

end passes

end dce.sec
