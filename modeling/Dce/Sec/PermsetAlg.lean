import Dce.Sec.AclGroups

open lib dce.rpc

namespace dce.sec

/-- An ACL has no type of entry twice, or none twice for one identity. -/
def sec_acl_t.WellFormed (ap : sec_acl_t) : Prop :=
  ap.sec_acl_entries.Pairwise fun ep ep' => ep.entry_info = ep'.entry_info → ep.entry_info = .extended

instance (ap : sec_acl_t) : Decidable ap.WellFormed := inferInstanceAs (Decidable (List.Pairwise _ _))

def maskPerms (ap : sec_acl_t) : sec_acl_permset_t :=
  ((ap.sec_acl_entries.find? (·.entry_info = .mask_obj)).map (·.perms)).getD MAX_PERMISSIONS

def unmasked (info : sec_acl_entry_u) : Bool :=
  info = .user_obj || info = .user_obj_deleg || info = .other_obj || info = .other_obj_deleg

/-- The permissions of an entry, behind the mask if that is for it. -/
def granted (ap : sec_acl_t) (ep : sec_acl_entry_t) : sec_acl_permset_t :=
  if unmasked ep.entry_info then ep.perms else ep.perms &&& maskPerms ap

section documented

variable (do_deleg : Bool) (pa_p : sec_id_pa_t uuid_t) (ap : sec_acl_t) (own_id grp_id : Option uuid_t)

/-- The permissions of a category of which one entry matches at most, and with delegates one more. -/
def categoryPerms (c : Category) : Option sec_acl_permset_t :=
  union ((ap.sec_acl_entries.filter fun ep =>
    Matches pa_p ap own_id c false ep || do_deleg && Matches pa_p ap own_id c true ep).map (granted ap))

/-- The permissions of the entries for groups of the caller: the regular ones, or those for delegates. -/
def groupPerms (deleg : Bool) : List sec_acl_permset_t :=
  (ap.sec_acl_entries.filter fun ep => groupOf ep.entry_info = some deleg && isMember pa_p ap grp_id ep.entry_info).map
    (granted ap)

def categoriesBefore : List (Option sec_acl_permset_t) :=
  [categoryPerms do_deleg pa_p ap own_id .user_obj, categoryPerms do_deleg pa_p ap own_id .user,
    categoryPerms do_deleg pa_p ap own_id .foreign_user]

def categoriesAfter : List (Option sec_acl_permset_t) :=
  [categoryPerms do_deleg pa_p ap own_id .other_obj, categoryPerms do_deleg pa_p ap own_id .foreign_other,
    categoryPerms do_deleg pa_p ap own_id .any_other]

def ownerMissing : Bool := own_id = none && ap.sec_acl_entries.any (needsOwner do_deleg ·.entry_info)

def groupMissing : Bool :=
  grp_id = none && ap.sec_acl_entries.any fun ep =>
    ep.entry_info = .group_obj || do_deleg && ep.entry_info = .group_obj_deleg

def groupCategory : Option sec_acl_permset_t :=
  if groupMissing do_deleg ap grp_id then some dce_acl_c_no_permissions
  else union (groupPerms pa_p ap grp_id false ++ if do_deleg then groupPerms pa_p ap grp_id true else [])

def documentedPerms : sec_acl_permset_t :=
  if ownerMissing do_deleg ap own_id then dce_acl_c_no_permissions
  else first (categoriesBefore do_deleg pa_p ap own_id ++
    groupCategory do_deleg pa_p ap grp_id :: categoriesAfter do_deleg pa_p ap own_id)

def groupPass : Option sec_acl_permset_t :=
  if ap.sec_acl_entries.any (readsGroups do_deleg ·.entry_info) then
    if grp_id = none && ap.sec_acl_entries.any (needsGroup ·.entry_info) then some dce_acl_c_no_permissions
    else union ((ap.sec_acl_entries.filter (isMember pa_p ap grp_id ·.entry_info)).map (granted ap))
  else none

def foundPerms : sec_acl_permset_t :=
  if ownerMissing do_deleg ap own_id then dce_acl_c_no_permissions
  else first (categoriesBefore do_deleg pa_p ap own_id ++
    groupPass do_deleg pa_p ap grp_id :: categoriesAfter do_deleg pa_p ap own_id)

end documented

variable {do_deleg : Bool} {pa_p : sec_id_pa_t uuid_t} {ap ap' : sec_acl_t} {own_id grp_id : Option uuid_t}

/-- What an entry of a category that names the caller holds. -/
def namedInfo (pa_p : sec_id_pa_t uuid_t) : Category → Bool → sec_acl_entry_u
  | .user_obj, false => .user_obj
  | .user_obj, true => .user_obj_deleg
  | .user, false => .user pa_p.principal
  | .user, true => .user_deleg pa_p.principal
  | .foreign_user, false => .foreign_user ⟨pa_p.principal, pa_p.realm⟩
  | .foreign_user, true => .for_user_deleg ⟨pa_p.principal, pa_p.realm⟩
  | .other_obj, false => .other_obj
  | .other_obj, true => .other_obj_deleg
  | .foreign_other, false => .foreign_other pa_p.realm
  | .foreign_other, true => .for_other_deleg pa_p.realm
  | .any_other, false => .any_other
  | .any_other, true => .any_other_deleg

theorem id_eq {a b : sec_id_t uuid_t} (h : sameUuid a.uuid b.uuid = true) : b = a := by
  cases a
  cases b
  exact congrArg sec_id_t.mk (sameUuid_eq h).symm

variable {ep : sec_acl_entry_t} {deleg : Bool} {c : Category}

theorem info_of_matches (h : Matches pa_p ap own_id c deleg ep = true) :
    ep.entry_info = namedInfo pa_p c deleg := by
  obtain ⟨perms, info⟩ := ep
  simp only [Matches, Bool.and_eq_true, decide_eq_true_eq] at h
  obtain ⟨hcategory, hnames⟩ := h
  cases info <;> cases hcategory
  case user userId | user_deleg userId =>
    simp only [names, Bool.and_eq_true] at hnames
    simp [namedInfo, id_eq hnames.2]
  case foreign_user foreign_id | for_user_deleg foreign_id =>
    simp only [names, Bool.and_eq_true] at hnames
    simp [namedInfo, ← id_eq hnames.1, ← id_eq hnames.2]
  case foreign_other realmId | for_other_deleg realmId => simp [namedInfo, id_eq hnames]
  all_goals rfl

theorem eq_of_info_eq (hwf : ap.WellFormed) {ep ep' : sec_acl_entry_t} (hmem : ep ∈ ap.sec_acl_entries)
    (hmem' : ep' ∈ ap.sec_acl_entries) (hinfo : ep.entry_info = ep'.entry_info) (hnot : ep.entry_info ≠ .extended) :
    ep = ep' := by
  by_contra hne
  have hsymm : Std.Symm fun ep ep' : sec_acl_entry_t => ep.entry_info = ep'.entry_info → ep.entry_info = .extended :=
    ⟨fun a b h heq => heq.trans (h heq.symm)⟩
  exact hnot (hwf.forall hmem hmem' hne hinfo)

theorem mem_find?_iff {α : Type} {l : List α} {p : α → Bool}
    (hunique : ∀ a ∈ l, ∀ b ∈ l, p a = true → p b = true → a = b) (a : α) : a ∈ l.find? p ↔ a ∈ l ∧ p a = true := by
  constructor
  · intro h
    exact ⟨List.mem_of_find?_eq_some h, List.find?_some h⟩
  · rintro ⟨hmem, hp⟩
    obtain ⟨b, hb⟩ := Option.isSome_iff_exists.mp (List.find?_isSome.mpr ⟨a, hmem, hp⟩)
    rwa [hunique a hmem b (List.mem_of_find?_eq_some hb) hp (List.find?_some hb)]

theorem matches_unique (hwf : ap.WellFormed) (c : Category) (deleg : Bool) : ∀ ep ∈ ap.sec_acl_entries,
    ∀ ep' ∈ ap.sec_acl_entries, Matches pa_p ap own_id c deleg ep = true → Matches pa_p ap own_id c deleg ep' = true → ep = ep' := by
  intro ep hmem ep' hmem' h h'
  have hinfo := info_of_matches h
  refine eq_of_info_eq hwf hmem hmem' (hinfo.trans (info_of_matches h').symm) ?_
  rw [hinfo]
  cases c <;> cases deleg <;> simp [namedInfo]

theorem mask_unique (hwf : ap.WellFormed) : ∀ ep ∈ ap.sec_acl_entries, ∀ ep' ∈ ap.sec_acl_entries,
    decide (ep.entry_info = .mask_obj) = true → decide (ep'.entry_info = .mask_obj) = true → ep = ep' := by
  intro ep hmem ep' hmem' h h'
  rw [decide_eq_true_eq] at h h'
  exact eq_of_info_eq hwf hmem hmem' (h.trans h'.symm) (by simp [h])

theorem lastMatch_eq_some_iff (hwf : ap.WellFormed) (do_deleg : Bool) (pa_p : sec_id_pa_t uuid_t) (own_id : Option uuid_t)
    (c : Category) (deleg : Bool) (ep : sec_acl_entry_t) :
    lastMatch do_deleg pa_p ap own_id c deleg ap.sec_acl_entries = some ep ↔
      (deleg = true → do_deleg = true) ∧ ep ∈ ap.sec_acl_entries ∧ Matches pa_p ap own_id c deleg ep = true := by
  rw [lastMatch, ← Option.mem_def]
  split_ifs with hread
  · rw [mem_find?_iff, List.mem_reverse]
    · exact (and_iff_right hread).symm
    · intro a ha b hb
      exact matches_unique hwf c deleg a (List.mem_reverse.mp ha) b (List.mem_reverse.mp hb)
  · simp [hread]

theorem maskPerms_eq (hwf : ap.WellFormed) :
    ((ap.sec_acl_entries.reverse.find? (·.entry_info = .mask_obj)).map (·.perms)).getD MAX_PERMISSIONS = maskPerms ap := by
  have hsame : ap.sec_acl_entries.reverse.find? (·.entry_info = .mask_obj) =
      ap.sec_acl_entries.find? (·.entry_info = .mask_obj) := by
    refine Option.ext fun ep => ?_
    rw [← Option.mem_def, ← Option.mem_def, mem_find?_iff (mask_unique hwf), mem_find?_iff, List.mem_reverse]
    intro a ha b hb
    exact mask_unique hwf a (List.mem_reverse.mp ha) b (List.mem_reverse.mp hb)
  rw [hsame, maskPerms]

theorem MASKIT_maskPerms (hmask : ep.entry_info ≠ .mask_obj) (hunauth : ep.entry_info ≠ .unauthenticated) :
    MASKIT ep (maskPerms ap) = granted ap ep := by
  obtain ⟨perms, info⟩ := ep
  cases info <;> simp_all [MASKIT, granted, unmasked]

theorem union_map_congr {l l' : List sec_acl_entry_t} {perms perms' : sec_acl_entry_t → sec_acl_permset_t}
    (h : ∀ ep, ep ∈ l ↔ ep ∈ l') (hperms : ∀ ep ∈ l, perms ep = perms' ep) : union (l.map perms) = union (l'.map perms') := by
  rw [List.map_congr_left hperms]
  refine union_congr fun p => ?_
  simp only [List.mem_map, h]

theorem kind_eq_union (perms : sec_acl_entry_t → sec_acl_permset_t) (ep del_ep : Option sec_acl_entry_t) :
    kind do_deleg perms ep del_ep = union ((ep.toList ++ if do_deleg then del_ep.toList else []).map perms) := by
  cases ep <;> cases do_deleg <;> cases del_ep <;> simp [kind, union, dce_acl_c_no_permissions]

theorem kind_eq_categoryPerms (hwf : ap.WellFormed) {f : Found} {unauth_mask : sec_acl_permset_t}
    (hkept : Kept do_deleg pa_p ap own_id ap.sec_acl_entries (.start unauth_mask) f)
    {perms : sec_acl_entry_t → sec_acl_permset_t} (c : Category)
    (hperms : ∀ deleg ep, Matches pa_p ap own_id c deleg ep = true → perms ep = granted ap ep) :
    kind do_deleg perms (f.slot c false) (f.slot c true) = categoryPerms do_deleg pa_p ap own_id c := by
  have hslot : ∀ deleg, f.slot c deleg = lastMatch do_deleg pa_p ap own_id c deleg ap.sec_acl_entries := by
    intro deleg
    have hstart : (Found.start unauth_mask).slot c deleg = none := by cases c <;> cases deleg <;> rfl
    rw [hkept.slot, hstart, Option.or_none]
  rw [kind_eq_union, categoryPerms, hslot, hslot]
  have hmem : ∀ ep, ep ∈ (lastMatch do_deleg pa_p ap own_id c false ap.sec_acl_entries).toList ++
      (if do_deleg then (lastMatch do_deleg pa_p ap own_id c true ap.sec_acl_entries).toList else []) ↔
      ep ∈ ap.sec_acl_entries.filter fun ep =>
        Matches pa_p ap own_id c false ep || do_deleg && Matches pa_p ap own_id c true ep := by
    intro ep
    have hregular := lastMatch_eq_some_iff hwf do_deleg pa_p own_id c false ep
    have hdelegate := lastMatch_eq_some_iff hwf do_deleg pa_p own_id c true ep
    rw [List.mem_append, List.mem_filter]
    cases do_deleg with
    | false => simp [Option.mem_toList, hregular]
    | true => simp [Option.mem_toList, hregular, hdelegate, and_or_left]
  refine union_map_congr hmem fun ep hep => ?_
  have hmatches := (List.mem_filter.mp ((hmem ep).mp hep)).2
  obtain h | h := Bool.or_eq_true_iff.mp hmatches
  · exact hperms false ep h
  · exact hperms true ep (Bool.and_eq_true_iff.mp h).2

theorem member_not_masked (hmember : isMember pa_p ap grp_id ep.entry_info = true) :
    MASKIT ep (maskPerms ap) = granted ap ep := by
  refine MASKIT_maskPerms ?_ ?_ <;>
  · intro hinfo
    rw [hinfo] at hmember
    exact absurd hmember Bool.false_ne_true

theorem memberPerms_eq :
    memberPerms pa_p ap grp_id (maskPerms ap) ap.sec_acl_entries =
      (ap.sec_acl_entries.filter (isMember pa_p ap grp_id ·.entry_info)).map (granted ap) :=
  List.map_congr_left fun _ hmem => member_not_masked (List.mem_filter.mp hmem).2

theorem masked_of_matches (hc : c ≠ .user_obj) (deleg : Bool) (ep : sec_acl_entry_t)
    (h : Matches pa_p ap own_id c deleg ep = true) : MASKIT ep (maskPerms ap) = granted ap ep := by
  have hinfo := info_of_matches h
  refine MASKIT_maskPerms ?_ ?_ <;>
  · rw [hinfo]
    cases c <;> cases deleg <;> simp [namedInfo]

theorem unmasked_of_matches (deleg : Bool) (ep : sec_acl_entry_t) (h : Matches pa_p ap own_id .user_obj deleg ep = true) :
    ep.perms = granted ap ep := by
  rw [granted, info_of_matches h, if_pos]
  cases deleg <;> rfl

theorem realm_answers (pa_p : sec_id_pa_t uuid_t) (ap : sec_acl_t) {α : Type} {rest : Bool → StateM error_status_t α} {a : α}
    (hrest : Answers (rest (inDefRealm pa_p ap)) a) :
    Answers (uuid_equal pa_p.realm.uuid ap.default_realm.uuid >>= fun same =>
      if same = true then pure true >>= rest else uuid_is_nil ap.default_realm.uuid >>= rest) a := by
  refine (uuid_equal_answers _ _).bind ?_
  unfold inDefRealm at hrest
  cases hsame : sameUuid pa_p.realm.uuid ap.default_realm.uuid with
  | true =>
    rw [hsame] at hrest
    exact answers_pure.bind hrest
  | false =>
    rw [hsame] at hrest
    exact (uuid_is_nil_answers ap.default_realm.uuid).bind hrest

theorem groups_answers (do_deleg : Bool) (pa_p : sec_id_pa_t uuid_t) (ap : sec_acl_t) (grp_id : Option uuid_t) :
    ∃ r : Except Unit (Bool × sec_acl_permset_t),
      (∀ {α : Type} {rest : Except Unit (Bool × sec_acl_permset_t) → StateM error_status_t α} {a : α}, Answers (rest r) a →
        Answers (if ap.sec_acl_entries.any (readsGroups do_deleg ·.entry_info) = true then
            (groupAccess pa_p ap grp_id (inDefRealm pa_p ap) (maskPerms ap) (false, dce_acl_c_no_permissions)
              ap.sec_acl_entries).run >>= rest
          else pure (.ok (false, dce_acl_c_no_permissions)) >>= rest) a) ∧
      (r = .error () ∧ groupPass do_deleg pa_p ap grp_id = some dce_acl_c_no_permissions ∨
        (∃ p, r = .ok (true, p) ∧ groupPass do_deleg pa_p ap grp_id = some p) ∨
        ∃ p, r = .ok (false, p) ∧ groupPass do_deleg pa_p ap grp_id = none) := by
  rw [groupPass]
  cases ap.sec_acl_entries.any (readsGroups do_deleg ·.entry_info) with
  | false => exact ⟨_, answers_pure.bind, .inr (.inr ⟨_, rfl, rfl⟩)⟩
  | true =>
    by_cases hmissing : (grp_id = none && ap.sec_acl_entries.any (needsGroup ·.entry_info)) = true
    · obtain ⟨rfl, hneeds⟩ : grp_id = none ∧ ∃ ep ∈ ap.sec_acl_entries, needsGroup ep.entry_info = true := by
        simpa using hmissing
      refine ⟨_, (groupAccess_error _ hneeds).bind, .inl ⟨rfl, ?_⟩⟩
      rw [if_pos rfl, if_pos hmissing]
    · have hgroup : (∃ ep ∈ ap.sec_acl_entries, needsGroup ep.entry_info = true) → grp_id.isSome := by
        rintro ⟨ep, hmem, hneeds⟩
        rw [Option.isSome_iff_ne_none]
        rintro rfl
        exact hmissing (by simpa using ⟨ep, hmem, hneeds⟩)
      refine ⟨_, (groupAccess_spec _ hgroup).bind, .inr ?_⟩
      rw [if_pos rfl, if_neg hmissing, union_eq, memberPerms_eq, Bool.false_or]
      cases ((ap.sec_acl_entries.filter (isMember pa_p ap grp_id ·.entry_info)).map (granted ap)).isEmpty with
      | true => exact .inr ⟨_, rfl, rfl⟩
      | false => exact .inl ⟨_, rfl, congrArg some BitVec.zero_or.symm⟩

theorem permset_alg_answers (hwf : ap.WellFormed) (do_deleg : Bool) (pa_p : sec_id_pa_t uuid_t) (own_id grp_id : Option uuid_t)
    (unauth_mask : sec_acl_permset_t) :
    ∃ unauth_mask', Answers (dce_acl__permset_alg do_deleg pa_p ap own_id grp_id unauth_mask)
      (foundPerms do_deleg pa_p ap own_id grp_id, unauth_mask') := by
  cases hmissing : ownerMissing do_deleg ap own_id with
  | true =>
    obtain ⟨rfl, hneeds⟩ : own_id = none ∧ ∃ ep ∈ ap.sec_acl_entries, needsOwner do_deleg ep.entry_info = true := by
      simpa [ownerMissing] using hmissing
    obtain ⟨f, hpass⟩ := preprocessAll_error pa_p ap (.start unauth_mask) hneeds
    refine ⟨f.unauth_mask, .after_set (realm_answers pa_p ap (hpass.bind ?_))⟩
    rw [foundPerms, if_pos hmissing]
    exact answers_pure
  | false =>
    have howner : (∃ ep ∈ ap.sec_acl_entries, needsOwner do_deleg ep.entry_info = true) → own_id.isSome := by
      rintro ⟨ep, hmem, hneeds⟩
      rw [Option.isSome_iff_ne_none]
      rintro rfl
      have : ownerMissing do_deleg ap none = true := by
        simpa [ownerMissing] using ⟨ep, hmem, hneeds⟩
      exact absurd (this.symm.trans hmissing) (by decide)
    obtain ⟨f, hpass, hkept⟩ := preprocessAll_spec pa_p ap (.start unauth_mask) howner
    refine ⟨f.unauth_mask, .after_set (realm_answers pa_p ap (hpass.bind ?_))⟩
    have hmask : f.mask_perms = maskPerms ap := hkept.mask_perms.trans (maskPerms_eq hwf)
    have hcheck : f.check_groups = ap.sec_acl_entries.any (readsGroups do_deleg ·.entry_info) := hkept.check_groups
    have hsingle : ∀ c, c ≠ .user_obj → kind do_deleg (MASKIT · f.mask_perms) (f.slot c false) (f.slot c true) =
        categoryPerms do_deleg pa_p ap own_id c := by
      intro c hc
      rw [hmask]
      exact kind_eq_categoryPerms hwf hkept c (masked_of_matches hc)
    have howned : kind do_deleg (·.perms) f.user_obj_ep f.user_obj_del_ep = categoryPerms do_deleg pa_p ap own_id .user_obj :=
      kind_eq_categoryPerms hwf hkept .user_obj unmasked_of_matches
    have huser : kind do_deleg (MASKIT · f.mask_perms) f.user_ep f.user_del_ep = _ := hsingle .user (by decide)
    have hforeign : kind do_deleg (MASKIT · f.mask_perms) f.for_user_ep f.for_user_del_ep = _ := hsingle .foreign_user (by decide)
    have hother : kind do_deleg (MASKIT · f.mask_perms) f.other_obj_ep f.other_obj_del_ep = _ := hsingle .other_obj (by decide)
    have hforeignOther : kind do_deleg (MASKIT · f.mask_perms) f.for_other_ep f.for_other_del_ep = _ :=
      hsingle .foreign_other (by decide)
    have hany : kind do_deleg (MASKIT · f.mask_perms) f.any_other_ep f.any_other_del_ep = _ := hsingle .any_other (by decide)
    dsimp only
    rw [foundPerms, hmissing, howned, huser, hforeign, hother, hforeignOther, hany, categoriesBefore, categoriesAfter]
    simp only [Bool.not_true, Bool.false_eq_true, ↓reduceIte, List.cons_append, List.nil_append]
    cases categoryPerms do_deleg pa_p ap own_id .user_obj with
    | some perms => exact answers_pure
    | none =>
    cases categoryPerms do_deleg pa_p ap own_id .user with
    | some perms => exact answers_pure
    | none =>
    cases categoryPerms do_deleg pa_p ap own_id .foreign_user with
    | some perms => exact answers_pure
    | none =>
    simp only [first_cons_none]
    obtain ⟨r, hgroups, hr⟩ := groups_answers do_deleg pa_p ap grp_id
    rw [hcheck, hmask]
    refine hgroups ?_
    obtain ⟨rfl, hpass⟩ | ⟨p, rfl, hpass⟩ | ⟨p, rfl, hpass⟩ := hr
    · rw [hpass]
      exact answers_pure
    · rw [hpass]
      exact answers_pure
    · rw [hpass]
      simp only [first_cons_none]
      cases categoryPerms do_deleg pa_p ap own_id .other_obj with
      | some perms => exact answers_pure
      | none =>
      cases categoryPerms do_deleg pa_p ap own_id .foreign_other with
      | some perms => exact answers_pure
      | none =>
      cases categoryPerms do_deleg pa_p ap own_id .any_other with
      | some perms => exact answers_pure
      | none => exact answers_pure

def isDelegate (info : sec_acl_entry_u) : Bool := (categoryOf info).any (·.2) || groupOf info = some true

/-- Two ACLs of one realm that have the same entries, as far as the algorithm has any use for them. -/
structure SameFor (do_deleg : Bool) (ap ap' : sec_acl_t) : Prop where
  default_realm : ap.default_realm = ap'.default_realm
  entries : ∀ ep, (isDelegate ep.entry_info = true → do_deleg = true) → (ep ∈ ap.sec_acl_entries ↔ ep ∈ ap'.sec_acl_entries)

section

variable (h : SameFor do_deleg ap ap')

include h

theorem SameFor.inDefRealm_eq : inDefRealm pa_p ap = inDefRealm pa_p ap' := by
  rw [inDefRealm, inDefRealm, h.default_realm]

theorem SameFor.matches_eq (c : Category) (deleg : Bool) : Matches pa_p ap own_id c deleg = Matches pa_p ap' own_id c deleg := by
  funext ep
  have hnames : names pa_p ap own_id ep.entry_info = names pa_p ap' own_id ep.entry_info := by
    cases ep.entry_info <;> simp only [names, h.inDefRealm_eq]
  rw [Matches, Matches, hnames]

theorem SameFor.isMember_eq : isMember pa_p ap grp_id = isMember pa_p ap' grp_id := by
  funext info
  cases info <;> simp only [isMember, h.inDefRealm_eq, h.default_realm]

theorem SameFor.maskPerms_eq (hwf : ap.WellFormed) (hwf' : ap'.WellFormed) : maskPerms ap = maskPerms ap' := by
  have hfind : ap.sec_acl_entries.find? (·.entry_info = .mask_obj) = ap'.sec_acl_entries.find? (·.entry_info = .mask_obj) := by
    refine Option.ext fun ep => ?_
    rw [← Option.mem_def, ← Option.mem_def, mem_find?_iff (mask_unique hwf), mem_find?_iff (mask_unique hwf')]
    refine and_congr_left fun hinfo => h.entries ep fun hdelegate => ?_
    rw [of_decide_eq_true hinfo] at hdelegate
    exact absurd hdelegate (by decide)
  rw [maskPerms, maskPerms, hfind]

theorem SameFor.granted_eq (hwf : ap.WellFormed) (hwf' : ap'.WellFormed) : granted ap = granted ap' := by
  funext ep
  rw [granted, granted, h.maskPerms_eq hwf hwf']

theorem SameFor.any_eq {p : sec_acl_entry_t → Bool} (hp : ∀ ep, p ep = true → isDelegate ep.entry_info = true → do_deleg = true) :
    ap.sec_acl_entries.any p = ap'.sec_acl_entries.any p := by
  refine Bool.eq_iff_iff.mpr ?_
  rw [List.any_eq_true, List.any_eq_true]
  refine exists_congr fun ep => and_congr_left fun hep => h.entries ep (hp ep hep)

theorem SameFor.mem_filter_iff {p : sec_acl_entry_t → Bool}
    (hp : ∀ ep, p ep = true → isDelegate ep.entry_info = true → do_deleg = true) (ep : sec_acl_entry_t) :
    ep ∈ ap.sec_acl_entries.filter p ↔ ep ∈ ap'.sec_acl_entries.filter p := by
  rw [List.mem_filter, List.mem_filter]
  exact and_congr_left fun hep => h.entries ep (hp ep hep)

end

theorem isDelegate_of_matches
    (hmatches : Matches pa_p ap own_id c deleg ep = true) : isDelegate ep.entry_info = deleg := by
  rw [info_of_matches hmatches]
  cases c <;> cases deleg <;> rfl

theorem SameFor.categoryPerms_eq (h : SameFor do_deleg ap ap') (hwf : ap.WellFormed) (hwf' : ap'.WellFormed) (c : Category) :
    categoryPerms do_deleg pa_p ap own_id c = categoryPerms do_deleg pa_p ap' own_id c := by
  rw [categoryPerms, categoryPerms, h.granted_eq hwf hwf']
  simp only [← h.matches_eq]
  refine union_map_congr (h.mem_filter_iff fun ep hep hdelegate => ?_) fun _ _ => rfl
  obtain hregular | hboth := Bool.or_eq_true_iff.mp hep
  · rw [isDelegate_of_matches hregular] at hdelegate
    exact absurd hdelegate Bool.false_ne_true
  · exact (Bool.and_eq_true_iff.mp hboth).1

theorem isDelegate_of_groupOf {info : sec_acl_entry_u} (hgroup : groupOf info = some deleg) :
    isDelegate info = deleg := by
  cases info <;> cases hgroup <;> rfl

section

variable (h : SameFor do_deleg ap ap')

include h

theorem SameFor.groupPerms_mem (hwf : ap.WellFormed) (hwf' : ap'.WellFormed)
    (pa_p : sec_id_pa_t uuid_t) (grp_id : Option uuid_t) (hread : deleg = true → do_deleg = true) (p : sec_acl_permset_t) :
    p ∈ groupPerms pa_p ap grp_id deleg ↔ p ∈ groupPerms pa_p ap' grp_id deleg := by
  rw [groupPerms, groupPerms, h.granted_eq hwf hwf', h.isMember_eq, List.mem_map, List.mem_map]
  refine exists_congr fun ep => and_congr_left fun _ => h.mem_filter_iff (fun ep hep hdelegate => ?_) ep
  rw [Bool.and_eq_true, decide_eq_true_eq] at hep
  exact hread ((isDelegate_of_groupOf hep.1).symm.trans hdelegate)

theorem SameFor.categories_eq (hwf : ap.WellFormed) (hwf' : ap'.WellFormed) (pa_p : sec_id_pa_t uuid_t) (own_id : Option uuid_t) :
    categoriesBefore do_deleg pa_p ap own_id = categoriesBefore do_deleg pa_p ap' own_id ∧
      categoriesAfter do_deleg pa_p ap own_id = categoriesAfter do_deleg pa_p ap' own_id := by
  simp only [categoriesBefore, categoriesAfter, h.categoryPerms_eq hwf hwf', and_self]

theorem SameFor.ownerMissing_eq : ownerMissing do_deleg ap own_id = ownerMissing do_deleg ap' own_id := by
  rw [ownerMissing, ownerMissing, h.any_eq]
  intro ep hneeds hdelegate
  obtain hinfo | ⟨hread, -⟩ : ep.entry_info = .user_obj ∨ do_deleg = true ∧ ep.entry_info = .user_obj_deleg := by
    simpa [needsOwner] using hneeds
  · rw [hinfo] at hdelegate
    exact absurd hdelegate (by decide)
  · exact hread

theorem SameFor.groupCategory_eq (hwf : ap.WellFormed) (hwf' : ap'.WellFormed) :
    groupCategory do_deleg pa_p ap grp_id = groupCategory do_deleg pa_p ap' grp_id := by
  have hmissing : groupMissing do_deleg ap grp_id = groupMissing do_deleg ap' grp_id := by
    rw [groupMissing, groupMissing, h.any_eq]
    intro ep hneeds hdelegate
    obtain hinfo | ⟨hread, -⟩ : ep.entry_info = .group_obj ∨ do_deleg = true ∧ ep.entry_info = .group_obj_deleg := by
      simpa using hneeds
    · rw [hinfo] at hdelegate
      exact absurd hdelegate (by decide)
    · exact hread
  have hregular := h.groupPerms_mem hwf hwf' pa_p grp_id fun hfalse => absurd hfalse Bool.false_ne_true
  rw [groupCategory, groupCategory, hmissing]
  congr 1
  refine union_congr fun p => ?_
  rw [List.mem_append, List.mem_append, hregular]
  refine or_congr_right ?_
  cases do_deleg with
  | false => exact Iff.rfl
  | true => exact h.groupPerms_mem hwf hwf' pa_p grp_id (fun _ => rfl) p

theorem SameFor.documentedPerms_eq (hwf : ap.WellFormed) (hwf' : ap'.WellFormed) :
    documentedPerms do_deleg pa_p ap own_id grp_id = documentedPerms do_deleg pa_p ap' own_id grp_id := by
  obtain ⟨hbefore, hafter⟩ := h.categories_eq hwf hwf' pa_p own_id
  rw [documentedPerms, documentedPerms, h.ownerMissing_eq, hbefore, hafter, h.groupCategory_eq hwf hwf']

end

theorem SameFor.foundPerms_eq (h : SameFor true ap ap') (hwf : ap.WellFormed) (hwf' : ap'.WellFormed) (do_deleg : Bool) :
    foundPerms do_deleg pa_p ap own_id grp_id = foundPerms do_deleg pa_p ap' own_id grp_id := by
  have hall : SameFor do_deleg ap ap' := ⟨h.default_realm, fun ep _ => h.entries ep fun _ => rfl⟩
  obtain ⟨hbefore, hafter⟩ := hall.categories_eq hwf hwf' pa_p own_id
  have hpass : groupPass do_deleg pa_p ap grp_id = groupPass do_deleg pa_p ap' grp_id := by
    rw [groupPass, groupPass, h.any_eq fun _ _ _ => rfl, h.any_eq fun _ _ _ => rfl, h.granted_eq hwf hwf', h.isMember_eq]
    rw [union_map_congr (h.mem_filter_iff fun _ _ _ => rfl) fun _ _ => rfl]
  rw [foundPerms, foundPerms, hall.ownerMissing_eq, hbefore, hafter, hpass]

theorem union_members (pa_p : sec_id_pa_t uuid_t) (ap : sec_acl_t) (grp_id : Option uuid_t) :
    union ((ap.sec_acl_entries.filter (isMember pa_p ap grp_id ·.entry_info)).map (granted ap)) =
      union (groupPerms pa_p ap grp_id false ++ groupPerms pa_p ap grp_id true) := by
  rw [groupPerms, groupPerms, ← List.map_append]
  refine union_map_congr (fun ep => ?_) fun _ _ => rfl
  have hkind : isMember pa_p ap grp_id ep.entry_info = true →
      groupOf ep.entry_info = some false ∨ groupOf ep.entry_info = some true := by
    intro hmember
    cases hinfo : ep.entry_info <;> simp_all [isMember, groupOf]
  simp only [List.mem_append, List.mem_filter, Bool.and_eq_true, decide_eq_true_eq, ← and_or_left, ← or_and_right]
  exact and_congr_right fun _ => ⟨fun h => ⟨hkind h, h⟩, fun h => h.2⟩

/-- A caller who is no delegate loses nothing to the entries for group delegates, and gets nothing from them. -/
def GroupDelegatesHarmless (pa_p : sec_id_pa_t uuid_t) (ap : sec_acl_t) (own_id grp_id : Option uuid_t) : Prop :=
  if grp_id = none ∧ ap.sec_acl_entries.any (·.entry_info = .group_obj) then True
  else if grp_id = none ∧ ap.sec_acl_entries.any (·.entry_info = .group_obj_deleg) then
    first (union (groupPerms pa_p ap grp_id false) :: categoriesAfter false pa_p ap own_id) = dce_acl_c_no_permissions
  else
    groupPerms pa_p ap grp_id true = [] ∨
      groupPerms pa_p ap grp_id false ≠ [] ∧
        Within (join (groupPerms pa_p ap grp_id true)) (join (groupPerms pa_p ap grp_id false)) ∨
      groupPerms pa_p ap grp_id false = [] ∧
        join (groupPerms pa_p ap grp_id true) = first (categoriesAfter false pa_p ap own_id)

/-- The second pass, which reads the entries for group delegates in any case, makes no difference. -/
def DelegatesHarmless (do_deleg : Bool) (pa_p : sec_id_pa_t uuid_t) (ap : sec_acl_t) (own_id grp_id : Option uuid_t) : Prop :=
  do_deleg = true ∨ ownerMissing do_deleg ap own_id = true ∨ (∃ p, some p ∈ categoriesBefore do_deleg pa_p ap own_id) ∨
    ap.sec_acl_entries.any (groupOf ·.entry_info = some false) = false ∨ GroupDelegatesHarmless pa_p ap own_id grp_id

theorem groupPerms_eq_nil (hnone : ∀ ep ∈ ap.sec_acl_entries, groupOf ep.entry_info ≠ some deleg) :
    groupPerms pa_p ap grp_id deleg = [] := by
  rw [groupPerms, List.map_eq_nil_iff, List.filter_eq_nil_iff]
  intro ep hmem hep
  rw [Bool.and_eq_true, decide_eq_true_eq] at hep
  exact hnone ep hmem hep.1

theorem groupMissing_eq_false (hnone : ∀ ep ∈ ap.sec_acl_entries, readsGroups do_deleg ep.entry_info = false) :
    groupMissing do_deleg ap grp_id = false := by
  rw [groupMissing, Bool.and_eq_false_iff]
  refine .inr (List.any_eq_false.mpr fun ep hmem hep => ?_)
  obtain hinfo | ⟨hread, hinfo⟩ : ep.entry_info = .group_obj ∨ do_deleg = true ∧ ep.entry_info = .group_obj_deleg := by
    simpa using hep
  · exact absurd (hnone ep hmem) (by simp [hinfo, readsGroups, groupOf])
  · exact absurd (hnone ep hmem) (by simp [hinfo, hread, readsGroups, groupOf])

theorem groupPass_deleg (pa_p : sec_id_pa_t uuid_t) (ap : sec_acl_t) (grp_id : Option uuid_t) :
    groupPass true pa_p ap grp_id = groupCategory true pa_p ap grp_id := by
  cases hreads : ap.sec_acl_entries.any (readsGroups true ·.entry_info) with
  | true =>
    rw [groupPass, groupCategory, union_members, hreads]
    rfl
  | false =>
    have hnone : ∀ ep ∈ ap.sec_acl_entries, readsGroups true ep.entry_info = false := by
      simpa only [List.any_eq_false, Bool.not_eq_true] using hreads
    have hkinds : ∀ deleg, ∀ ep ∈ ap.sec_acl_entries, groupOf ep.entry_info ≠ some deleg := by
      intro deleg ep hmem hgroup
      have := hnone ep hmem
      cases deleg <;> simp [readsGroups, hgroup] at this
    rw [groupPass, groupCategory, hreads, groupMissing_eq_false hnone, groupPerms_eq_nil (hkinds false),
      groupPerms_eq_nil (hkinds true)]
    rfl

theorem groupPass_no_regular (hnone : ap.sec_acl_entries.any (groupOf ·.entry_info = some false) = false) :
    groupPass false pa_p ap grp_id = groupCategory false pa_p ap grp_id := by
  have hkinds : ∀ ep ∈ ap.sec_acl_entries, groupOf ep.entry_info ≠ some false := by
    simpa only [List.any_eq_false, decide_eq_true_eq] using hnone
  have hreads : ∀ ep ∈ ap.sec_acl_entries, readsGroups false ep.entry_info = false := by
    intro ep hmem
    simp [readsGroups, hkinds ep hmem]
  have hpass : ap.sec_acl_entries.any (readsGroups false ·.entry_info) = false := by
    simpa only [List.any_eq_false, Bool.not_eq_true] using hreads
  rw [groupPass, groupCategory, hpass, groupMissing_eq_false hreads, groupPerms_eq_nil hkinds]
  rfl

theorem first_groupPass_iff (hregular : ap.sec_acl_entries.any (groupOf ·.entry_info = some false) = true) :
    first (groupPass false pa_p ap grp_id :: categoriesAfter false pa_p ap own_id) =
        first (groupCategory false pa_p ap grp_id :: categoriesAfter false pa_p ap own_id) ↔
      GroupDelegatesHarmless pa_p ap own_id grp_id := by
  have hreads : ap.sec_acl_entries.any (readsGroups false ·.entry_info) = true := by
    rw [← hregular]
    simp [readsGroups]
  have hneeds : ap.sec_acl_entries.any (needsGroup ·.entry_info) =
      (ap.sec_acl_entries.any (·.entry_info = .group_obj) || ap.sec_acl_entries.any (·.entry_info = .group_obj_deleg)) := by
    refine Bool.eq_iff_iff.mpr ?_
    simp only [needsGroup, Bool.or_eq_true, List.any_eq_true, decide_eq_true_eq, and_or_left, exists_or]
  have hmissing : groupMissing false ap grp_id = (grp_id = none && ap.sec_acl_entries.any (·.entry_info = .group_obj)) := by
    simp [groupMissing]
  rw [groupPass, hreads, if_pos rfl, union_members, groupCategory, hmissing, hneeds, GroupDelegatesHarmless,
    if_neg Bool.false_ne_true, List.append_nil]
  by_cases hgroup : grp_id = none
  · cases ap.sec_acl_entries.any (·.entry_info = .group_obj) with
    | true => simp [hgroup]
    | false =>
      cases ap.sec_acl_entries.any (·.entry_info = .group_obj_deleg) with
      | true => simpa [hgroup, first_cons_some] using eq_comm
      | false => simpa [hgroup] using first_union_append_iff _ _ _
  · simpa [hgroup] using first_union_append_iff _ _ _

theorem foundPerms_eq_iff (do_deleg : Bool) (pa_p : sec_id_pa_t uuid_t) (ap : sec_acl_t) (own_id grp_id : Option uuid_t) :
    foundPerms do_deleg pa_p ap own_id grp_id = documentedPerms do_deleg pa_p ap own_id grp_id ↔
      DelegatesHarmless do_deleg pa_p ap own_id grp_id := by
  rw [foundPerms, documentedPerms, DelegatesHarmless]
  cases do_deleg with
  | true => simp [groupPass_deleg]
  | false =>
    cases ownerMissing false ap own_id with
    | true => simp
    | false =>
      by_cases hbefore : ∃ p, some p ∈ categoriesBefore false pa_p ap own_id
      · simp [hbefore, first_append_of_some _ hbefore]
      · rw [first_append_of_none _ hbefore, first_append_of_none _ hbefore]
        cases hregular : ap.sec_acl_entries.any (groupOf ·.entry_info = some false) with
        | false => simp [groupPass_no_regular hregular]
        | true => simpa [hbefore] using first_groupPass_iff hregular

theorem SameFor.of_perm (hrealm : ap'.default_realm = ap.default_realm) (hperm : ap'.sec_acl_entries.Perm ap.sec_acl_entries) :
    SameFor do_deleg ap' ap := ⟨hrealm, fun _ _ => hperm.mem_iff⟩

theorem WellFormed.of_perm (hwf : ap.WellFormed) (hperm : ap'.sec_acl_entries.Perm ap.sec_acl_entries) : ap'.WellFormed :=
  (hperm.pairwise_iff fun h heq => heq.trans (h heq.symm)).mpr hwf

/-- The permissions are the documented ones exactly where the entries for delegates are harmless. They never depend on the
order of the entries, and where those for delegates are harmless not on these, for a caller who is no delegate. -/
theorem permset_alg_iff (do_deleg : Bool) (pa_p : sec_id_pa_t uuid_t) (ap : sec_acl_t) (own_id grp_id : Option uuid_t)
    (unauth_mask : sec_acl_permset_t) (st : error_status_t) (hwf : ap.WellFormed) :
    let perms (do_deleg : Bool) (ap : sec_acl_t) : sec_acl_permset_t :=
      ((dce_acl__permset_alg do_deleg pa_p ap own_id grp_id unauth_mask).run st).1.1
    (perms do_deleg ap = documentedPerms do_deleg pa_p ap own_id grp_id ↔ DelegatesHarmless do_deleg pa_p ap own_id grp_id) ∧
      (∀ ap' : sec_acl_t, ap'.default_realm = ap.default_realm → ap'.sec_acl_entries.Perm ap.sec_acl_entries →
        perms do_deleg ap' = perms do_deleg ap) ∧
      ∀ ap' : sec_acl_t, ap'.WellFormed → SameFor false ap ap' → DelegatesHarmless false pa_p ap own_id grp_id →
        DelegatesHarmless false pa_p ap' own_id grp_id → perms false ap = perms false ap' := by
  have hfound : ∀ (do_deleg : Bool) (ap : sec_acl_t), ap.WellFormed →
      ((dce_acl__permset_alg do_deleg pa_p ap own_id grp_id unauth_mask).run st).1.1 =
        foundPerms do_deleg pa_p ap own_id grp_id := by
    intro do_deleg ap hwf
    obtain ⟨unauth_mask', hanswers⟩ := permset_alg_answers hwf do_deleg pa_p own_id grp_id unauth_mask
    rw [hanswers st]
  dsimp only
  rw [hfound do_deleg ap hwf]
  refine ⟨foundPerms_eq_iff do_deleg pa_p ap own_id grp_id, ?_, ?_⟩
  · intro ap' hrealm hperm
    have hwf' := WellFormed.of_perm hwf hperm
    rw [hfound do_deleg ap' hwf']
    exact (SameFor.of_perm hrealm hperm).foundPerms_eq hwf' hwf do_deleg
  · intro ap' hwf' hsame hharmless hharmless'
    rw [hfound false ap hwf, hfound false ap' hwf', (foundPerms_eq_iff ..).mpr hharmless, (foundPerms_eq_iff ..).mpr hharmless']
    exact hsame.documentedPerms_eq hwf hwf'

def groupDelegateAcl : sec_acl_t where
  default_realm := ⟨⟨1, 0, 0, 0x80, 0, uuid_g_nil_uuid.node⟩⟩
  sec_acl_entries :=
    [⟨1, .group ⟨⟨2, 0, 0, 0x80, 0, uuid_g_nil_uuid.node⟩⟩⟩, ⟨4, .group_deleg ⟨⟨3, 0, 0, 0x80, 0, uuid_g_nil_uuid.node⟩⟩⟩]

def groupDelegateCaller : sec_id_pa_t uuid_t where
  realm := ⟨⟨1, 0, 0, 0x80, 0, uuid_g_nil_uuid.node⟩⟩
  principal := ⟨⟨4, 0, 0, 0x80, 0, uuid_g_nil_uuid.node⟩⟩
  group := ⟨⟨3, 0, 0, 0x80, 0, uuid_g_nil_uuid.node⟩⟩
  groups := []
  foreign_groupsets := []

theorem permset_alg_iff_example :
    let perms (do_deleg : Bool) (ap : sec_acl_t) : sec_acl_permset_t :=
      ((dce_acl__permset_alg do_deleg groupDelegateCaller ap none none 0).run .error_status_ok).1.1
    (perms true groupDelegateAcl = documentedPerms true groupDelegateCaller groupDelegateAcl none none ↔
        DelegatesHarmless true groupDelegateCaller groupDelegateAcl none none) ∧
      (∀ ap' : sec_acl_t, ap'.default_realm = groupDelegateAcl.default_realm →
        ap'.sec_acl_entries.Perm groupDelegateAcl.sec_acl_entries → perms true ap' = perms true groupDelegateAcl) ∧
      ∀ ap' : sec_acl_t, ap'.WellFormed → SameFor false groupDelegateAcl ap' →
        DelegatesHarmless false groupDelegateCaller groupDelegateAcl none none →
        DelegatesHarmless false groupDelegateCaller ap' none none → perms false groupDelegateAcl = perms false ap' :=
  permset_alg_iff true groupDelegateCaller groupDelegateAcl none none 0 .error_status_ok (by decide)

/-- A caller who is no delegate gets the permissions of an entry for group delegates. -/
theorem group_delegate_granted :
    groupDelegateAcl.WellFormed ∧
      ((dce_acl__permset_alg false groupDelegateCaller groupDelegateAcl none none 0).run .error_status_ok).1.1 = 4 ∧
      documentedPerms false groupDelegateCaller groupDelegateAcl none none = 0 := by
  decide +kernel

end dce.sec
