import Dce.Dacl.AccessOrder

open lib dce.sec

namespace dce.dacl

variable {source : epi_source_id_t} {acl acl' : dacl_t} {subject : Subject} {do_dlg : Bool}

def EntryGrown (entry entry' : dacl_entry_t) : Prop := entry.entry_info = entry'.entry_info ∧ Within entry.perms entry'.perms

def SimpleGrown (entry entry' : dacl_simple_entry_t) : Prop :=
  entry.is_entry_good = entry'.is_entry_good ∧ Within entry.perms entry'.perms

/-- An ACL with permissions added to entries. -/
structure Grown (acl acl' : dacl_t) : Prop where
  default_realm : acl.default_realm = acl'.default_realm
  simple : ∀ type, SimpleGrown (acl.simple_entries type) (acl'.simple_entries type)
  complex : ∀ list, List.Forall₂ EntryGrown (acl.complex_entries list) (acl'.complex_entries list)

/-- What the search through groups has found, with permissions added. -/
structure GroupsGrown (found found' : GroupMatches) : Prop where
  groupObjEntryP : Option.Rel SimpleGrown found.groupObjEntryP found'.groupObjEntryP
  groupObjDelegateEntryP : Option.Rel SimpleGrown found.groupObjDelegateEntryP found'.groupObjDelegateEntryP
  groupKeyMatched : found.groupKeyMatched = found'.groupKeyMatched
  groupDelegateKeyMatched : found.groupDelegateKeyMatched = found'.groupDelegateKeyMatched
  accumulatedGroupPerms : Within found.accumulatedGroupPerms found'.accumulatedGroupPerms
  accumulatedGroupDelegatePerms : Within found.accumulatedGroupDelegatePerms found'.accumulatedGroupDelegatePerms

structure MatchesGrown (found found' : EntryMatches) : Prop extends GroupsGrown found.toGroupMatches found'.toGroupMatches where
  userObjEntryP : Option.Rel SimpleGrown found.userObjEntryP found'.userObjEntryP
  userEntryP : Option.Rel EntryGrown found.userEntryP found'.userEntryP
  userDelegateEntryP : Option.Rel EntryGrown found.userDelegateEntryP found'.userDelegateEntryP
  otherEntryP : Option.Rel EntryGrown found.otherEntryP found'.otherEntryP
  otherDelegateEntryP : Option.Rel EntryGrown found.otherDelegateEntryP found'.otherDelegateEntryP

theorem rel_cases {α : Type} {R : α → α → Prop} {a b : Option α} (h : Option.Rel R a b) :
    a = none ∧ b = none ∨ ∃ x y, a = some x ∧ b = some y ∧ R x y := by
  cases h with
  | none => exact .inl ⟨rfl, rfl⟩
  | some hxy => exact .inr ⟨_, _, rfl, rfl, hxy⟩

theorem rel_none_iff {α : Type} {R : α → α → Prop} {a b : Option α} (h : Option.Rel R a b) : a = none ↔ b = none := by
  obtain ⟨rfl, rfl⟩ | ⟨x, y, rfl, rfl, -⟩ := rel_cases h <;> simp

theorem DACL_ACCESS_MASK_WRITE_RIGHTS_grown {perms perms' : dacl_permset_t} (h : Within perms perms') :
    Within (DACL_ACCESS_MASK_WRITE_RIGHTS perms) (DACL_ACCESS_MASK_WRITE_RIGHTS perms') := by
  unfold DACL_ACCESS_MASK_WRITE_RIGHTS
  refine h.and ?_
  by_cases hwrite : perms &&& dacl_perm_write ≠ 0
  · have hwrite' : perms' &&& dacl_perm_write ≠ 0 := by
      intro hnone
      have hstill := h.and (within_refl (a := dacl_perm_write))
      rw [hnone] at hstill
      exact hwrite hstill.eq_zero
    rw [if_pos hwrite']
    exact within_allOnes
  · rw [if_neg hwrite]
    split_ifs
    · exact within_allOnes
    · exact within_refl

theorem DACL_ACCESS_MASK_ACCESS_grown {mask mask' perms perms' : dacl_permset_t} (hmask : Within mask mask')
    (h : Within perms perms') (useMaskObj : Bool) :
    Within (DACL_ACCESS_MASK_ACCESS mask perms useMaskObj) (DACL_ACCESS_MASK_ACCESS mask' perms' useMaskObj) := by
  refine DACL_ACCESS_MASK_WRITE_RIGHTS_grown (h.and ?_)
  cases useMaskObj with
  | false => exact within_refl
  | true => exact hmask

theorem find_grown (source : epi_source_id_t) (userIdP groupIdP realmIdP : Option epi_uuid_t) {list list' : List dacl_entry_t}
    (h : List.Forall₂ EntryGrown list list') : Option.Rel EntryGrown
      (dacl_FindMatchingListEntry source userIdP groupIdP realmIdP list)
      (dacl_FindMatchingListEntry source userIdP groupIdP realmIdP list') := by
  induction h with
  | nil => exact .none
  | cons hentry hrest ih =>
    unfold dacl_FindMatchingListEntry at ih ⊢
    rw [List.find?_cons, List.find?_cons, hentry.1]
    split
    · exact .some hentry
    · exact ih

theorem Grown.simple_rel (h : Grown acl acl') (type : dacl_simple_entry_type_t) :
    Option.Rel SimpleGrown (simpleEntry acl type) (simpleEntry acl' type) := by
  have hentry := h.simple type
  rw [simpleEntry, simpleEntry, hentry.1]
  split_ifs
  · exact .some hentry
  · exact .none

theorem Grown.realm_eq (h : Grown acl acl') : realmIsDefault acl subject = realmIsDefault acl' subject := by
  rw [realmIsDefault, realmIsDefault, h.default_realm]

theorem GroupsGrown.listed {found found' : GroupMatches} (hacl : Grown acl acl') (h : GroupsGrown found found')
    (realmIdP : Option epi_uuid_t) (groupId : epi_uuid_t) :
    GroupsGrown (listedGroup source acl do_dlg realmIdP groupId found) (listedGroup source acl' do_dlg realmIdP groupId found') := by
  have hfirst : ∀ list, Option.Rel EntryGrown _ _ := fun list =>
    find_grown source none (some groupId) realmIdP (hacl.complex list)
  obtain ⟨hobj, hobjDelegate, hkey, hkeyDelegate, hperms, hpermsDelegate⟩ := h
  unfold listedGroup
  obtain ⟨hnone, hnone'⟩ | ⟨entry, entry', hentry, hentry', hgrown⟩ := rel_cases (hfirst .group) <;>
  obtain ⟨hdnone, hdnone'⟩ | ⟨dentry, dentry', hdentry, hdentry', hdgrown⟩ := rel_cases (hfirst .group_delegate) <;>
  cases do_dlg <;>
  · constructor <;> simp_all [EntryGrown, Within.or]

theorem GroupsGrown.own {found found' : GroupMatches} (hacl : Grown acl acl') (h : GroupsGrown found found')
    (realmIsDefault : Bool) (realmId groupObj groupId : epi_uuid_t) :
    GroupsGrown (localGroup source acl do_dlg realmIsDefault realmId groupObj groupId found)
      (localGroup source acl' do_dlg realmIsDefault realmId groupObj groupId found') := by
  refine GroupsGrown.listed hacl ?_ _ groupId
  obtain ⟨hobj, hobjDelegate, hkey, hkeyDelegate, hperms, hpermsDelegate⟩ := h
  have hnone := rel_none_iff hobj
  have hnoneDelegate := rel_none_iff hobjDelegate
  have hregular := hacl.simple_rel .groupobj
  have hdelegate := hacl.simple_rel .groupobj_delegate
  by_cases his : Epi_PrinId_Cmp source groupId groupObj = 0 ∧ realmIsDefault = true
  · by_cases hfirst : found.groupObjEntryP = none <;> by_cases hfirstDelegate : found.groupObjDelegateEntryP = none <;>
    cases do_dlg <;>
    · constructor <;> simp_all
  · simp only [his, and_false, ↓reduceIte]
    exact ⟨hobj, hobjDelegate, hkey, hkeyDelegate, hperms, hpermsDelegate⟩

theorem GroupsGrown.accumulate {found found' : GroupMatches} (h : GroupsGrown found found') (maskObjPresent : Bool)
    {check check' : epi_uuid_t → GroupMatches → GroupMatches}
    (hcheck : ∀ groupId found found', GroupsGrown found found' → GroupsGrown (check groupId found) (check' groupId found'))
    (groups : List (sec_id_t epi_uuid_t)) :
    GroupsGrown (accumulate maskObjPresent check groups found) (accumulate maskObjPresent check' groups found') := by
  induction groups generalizing found found' with
  | nil => exact h
  | cons group groups ih =>
    have hnone := rel_none_iff h.groupObjEntryP
    rw [dacl.accumulate, dacl.accumulate]
    by_cases hon : found.groupObjEntryP = none ∨ maskObjPresent = true
    · rw [if_pos hon, if_pos (hon.imp_left hnone.mp)]
      exact ih (hcheck group.uuid _ _ h)
    · rw [if_neg hon, if_neg (mt (.imp_left hnone.mpr) hon)]
      exact h

theorem groupMatches_grown (source : epi_source_id_t) (hacl : Grown acl acl') (subject : Subject) (do_dlg : Bool) :
    GroupsGrown (groupMatches source acl subject do_dlg) (groupMatches source acl' subject do_dlg) := by
  have hmask : (simpleEntry acl .maskobj).isSome = (simpleEntry acl' .maskobj).isSome := by
    obtain ⟨h, h'⟩ | ⟨x, y, h, h', -⟩ := rel_cases (hacl.simple_rel .maskobj) <;> rw [h, h']
    rfl
  have hforeign : ∀ (groupsets : List (sec_id_foreign_groupset_t epi_uuid_t)) found found', GroupsGrown found found' →
      GroupsGrown
        (groupsets.foldl (fun found groupset => accumulate (simpleEntry acl .maskobj).isSome
          (listedGroup source acl do_dlg (some groupset.realm.uuid)) groupset.groups found) found)
        (groupsets.foldl (fun found groupset => accumulate (simpleEntry acl' .maskobj).isSome
          (listedGroup source acl' do_dlg (some groupset.realm.uuid)) groupset.groups found) found') := by
    intro groupsets
    induction groupsets with
    | nil => intro found found' h; exact h
    | cons groupset groupsets ih =>
      intro found found' h
      refine ih _ _ ?_
      rw [hmask]
      exact h.accumulate _ (fun groupId found found' h => h.listed hacl _ groupId) groupset.groups
  refine hforeign _ _ _ ?_
  rw [hmask, hacl.realm_eq]
  have hnone : GroupsGrown .none .none := ⟨.none, .none, rfl, rfl, within_refl, within_refl⟩
  exact (hnone.own hacl _ _ _ _).accumulate _ (fun groupId found found' h => h.own hacl _ _ _ groupId) _

theorem entryMatches_grown (source : epi_source_id_t) (hacl : Grown acl acl') (subject : Subject) (do_dlg : Bool) :
    MatchesGrown (entryMatches source acl subject do_dlg) (entryMatches source acl' subject do_dlg) := by
  have howner := hacl.simple_rel .userobj
  have hmissing : (simpleEntry acl .userobj).isSome = (simpleEntry acl' .userobj).isSome := by
    obtain ⟨h, h'⟩ | ⟨x, y, h, h', -⟩ := rel_cases howner <;> rw [h, h']
    rfl
  have hgroups := groupMatches_grown source hacl subject do_dlg
  have hnone : GroupsGrown .none .none := ⟨.none, .none, rfl, rfl, within_refl, within_refl⟩
  have hlist : ∀ userIdP realmIdP list, Option.Rel EntryGrown
      (dacl_FindMatchingListEntry source userIdP none realmIdP (acl.complex_entries list))
      (dacl_FindMatchingListEntry source userIdP none realmIdP (acl'.complex_entries list)) :=
    fun userIdP realmIdP list => find_grown source userIdP none realmIdP (hacl.complex list)
  have hdelegates : ∀ userIdP realmIdP list, Option.Rel EntryGrown
      (if do_dlg = true then dacl_FindMatchingListEntry source userIdP none realmIdP (acl.complex_entries list) else none)
      (if do_dlg = true then dacl_FindMatchingListEntry source userIdP none realmIdP (acl'.complex_entries list) else none) := by
    intro userIdP realmIdP list
    split_ifs
    · exact hlist userIdP realmIdP list
    · exact .none
  unfold entryMatches
  dsimp only
  rw [hacl.realm_eq, hmissing]
  by_cases hown : Epi_PrinId_Cmp source subject.pac.principal.uuid subject.userObj = 0 ∧ realmIsDefault acl' subject = true ∧
      (simpleEntry acl' .userobj).isSome = true
  · rw [if_pos hown, if_pos hown]
    exact ⟨hnone, howner, .none, .none, .none, .none⟩
  rw [if_neg hown, if_neg hown]
  generalize (if realmIsDefault acl' subject = true then none else some subject.pac.realm.uuid) = realmIdP
  have huser := hlist (some subject.pac.principal.uuid) realmIdP .user
  have huserDelegate := hdelegates (some subject.pac.principal.uuid) realmIdP .user_delegate
  simp only [rel_none_iff huser, rel_none_iff huserDelegate, rel_none_iff hgroups.groupObjEntryP, hgroups.groupKeyMatched,
    rel_none_iff hgroups.groupObjDelegateEntryP, hgroups.groupDelegateKeyMatched]
  generalize dacl_FindMatchingListEntry source (some subject.pac.principal.uuid) none realmIdP (acl.complex_entries .user) = user,
    dacl_FindMatchingListEntry source (some subject.pac.principal.uuid) none realmIdP (acl'.complex_entries .user) = user',
    (if do_dlg = true then dacl_FindMatchingListEntry source (some subject.pac.principal.uuid) none realmIdP
      (acl.complex_entries .user_delegate) else none) = userDelegate,
    (if do_dlg = true then dacl_FindMatchingListEntry source (some subject.pac.principal.uuid) none realmIdP
      (acl'.complex_entries .user_delegate) else none) = userDelegate' at *
  by_cases hnouser : user' = none ∧ ((!do_dlg) = true ∨ userDelegate' = none)
  · rw [if_pos hnouser, if_pos hnouser]
    split
    · exact ⟨hgroups, .none, .none, .none, hlist none (some subject.pac.realm.uuid) .other,
        hdelegates none (some subject.pac.realm.uuid) .for_other_delegate⟩
    · exact ⟨hgroups, .none, .none, .none, .none, .none⟩
  · rw [if_neg hnouser, if_neg hnouser]
    exact ⟨hnone, .none, huser, huserDelegate, .none, .none⟩

theorem maskObjPermMask_grown (hacl : Grown acl acl') : Within (maskObjPermMask acl subject) (maskObjPermMask acl' subject) := by
  unfold maskObjPermMask
  obtain ⟨h, h'⟩ | ⟨x, y, h, h', hxy⟩ := rel_cases (hacl.simple_rel .maskobj) <;> rw [h, h']
  · exact within_refl
  · exact (hxy.2.and within_refl).or within_refl

theorem getD_grown {entryP entryP' : Option dacl_entry_t} (h : Option.Rel EntryGrown entryP entryP') :
    Within ((entryP.map (·.perms)).getD 0) ((entryP'.map (·.perms)).getD 0) := by
  obtain ⟨rfl, rfl⟩ | ⟨x, y, rfl, rfl, hxy⟩ := rel_cases h
  · exact within_refl
  · exact hxy.2

theorem initiatorAccess_grown (hacl : Grown acl acl') {found found' : EntryMatches} (h : MatchesGrown found found') :
    Within (initiatorAccess acl subject found).1 (initiatorAccess acl' subject found').1 := by
  have hmask : ∀ {perms perms' : dacl_permset_t} (useMaskObj : Bool), Within perms perms' →
      Within (DACL_ACCESS_MASK_ACCESS (maskObjPermMask acl subject) perms useMaskObj)
        (DACL_ACCESS_MASK_ACCESS (maskObjPermMask acl' subject) perms' useMaskObj) :=
    fun useMaskObj h => DACL_ACCESS_MASK_ACCESS_grown (maskObjPermMask_grown hacl) h useMaskObj
  unfold initiatorAccess
  dsimp only
  obtain ⟨ho, ho'⟩ | ⟨owner, owner', ho, ho', howner⟩ := rel_cases h.userObjEntryP <;> rw [ho, ho']
  swap
  · exact hmask false ((howner.2.and within_refl).or within_refl)
  obtain ⟨hu, hu'⟩ | ⟨user, user', hu, hu', huser⟩ := rel_cases h.userEntryP <;> rw [hu, hu']
  swap
  · exact hmask true huser.2
  obtain ⟨hg, hg'⟩ | ⟨group, group', hg, hg', hgroup⟩ := rel_cases h.groupObjEntryP <;> rw [hg, hg']
  swap
  · dsimp only
    obtain ⟨hm, hm'⟩ | ⟨x, y, hm, hm', -⟩ := rel_cases (hacl.simple_rel .maskobj) <;> rw [hm, hm']
    · exact hmask true ((hgroup.2.and within_refl).or within_refl)
    · exact hmask true (hgroup.2.or h.accumulatedGroupPerms)
  dsimp only
  rw [h.groupKeyMatched, hacl.realm_eq]
  split
  · exact hmask true h.accumulatedGroupPerms
  cases realmIsDefault acl' subject <;>
  obtain ⟨hr, hr'⟩ | ⟨other, other', hr, hr', hother⟩ := rel_cases (hacl.simple_rel .otherobj) <;> rw [hr, hr']
  case true.inr => exact hmask false ((hother.2.and within_refl).or within_refl)
  all_goals
    obtain ⟨hf, hf'⟩ | ⟨foreign, foreign', hf, hf', hforeign⟩ := rel_cases h.otherEntryP <;> rw [hf, hf']
    · obtain ⟨ha, ha'⟩ | ⟨any, any', ha, ha', hany⟩ := rel_cases (hacl.simple_rel .anyother) <;> rw [ha, ha']
      · exact within_refl
      · exact hmask true hany.2
    · exact hmask true hforeign.2

theorem delegateAccess_grown (hacl : Grown acl acl') {found found' : EntryMatches} (h : MatchesGrown found found') :
    Within (delegateAccess acl subject found).1 (delegateAccess acl' subject found').1 := by
  have hmask : ∀ {perms perms' : dacl_permset_t} (useMaskObj : Bool), Within perms perms' →
      Within (DACL_ACCESS_MASK_ACCESS (maskObjPermMask acl subject) perms useMaskObj)
        (DACL_ACCESS_MASK_ACCESS (maskObjPermMask acl' subject) perms' useMaskObj) :=
    fun useMaskObj h => DACL_ACCESS_MASK_ACCESS_grown (maskObjPermMask_grown hacl) h useMaskObj
  have hsome : ∀ {α : Type} {R : α → α → Prop} {a b : Option α}, Option.Rel R a b → a.isSome = b.isSome := by
    intro α R a b hrel
    obtain ⟨rfl, rfl⟩ | ⟨x, y, rfl, rfl, -⟩ := rel_cases hrel <;> rfl
  unfold delegateAccess
  dsimp only
  obtain ⟨ho, ho'⟩ | ⟨owner, owner', ho, ho', howner⟩ := rel_cases h.userObjEntryP <;> rw [ho, ho']
  swap
  · exact hmask false ((howner.2.and within_refl).or within_refl)
  dsimp only
  rw [hsome h.userEntryP, hsome h.userDelegateEntryP, hsome h.groupObjEntryP, hsome h.groupObjDelegateEntryP, h.groupKeyMatched,
    h.groupDelegateKeyMatched, hacl.realm_eq, hsome (hacl.simple_rel .otherobj), hsome (hacl.simple_rel .otherobj_delegate)]
  split
  · exact hmask true ((getD_grown h.userEntryP).or (getD_grown h.userDelegateEntryP))
  split
  · -- the groups
    refine hmask true (((?_ : Within _ _).or ?_).or ?_ |>.or ?_)
    · obtain ⟨hg, hg'⟩ | ⟨group, group', hg, hg', hgroup⟩ := rel_cases h.groupObjEntryP <;> rw [hg, hg']
      · exact within_refl
      obtain ⟨hm, hm'⟩ | ⟨x, y, hm, hm', -⟩ := rel_cases (hacl.simple_rel .maskobj) <;> rw [hm, hm']
      · exact (hgroup.2.and within_refl).or within_refl
      · exact hgroup.2
    · obtain ⟨hg, hg'⟩ | ⟨group, group', hg, hg', hgroup⟩ := rel_cases h.groupObjDelegateEntryP <;> rw [hg, hg']
      · exact within_refl
      · exact hgroup.2
    · split
      · exact h.accumulatedGroupPerms
      · exact within_refl
    · split
      · exact h.accumulatedGroupDelegatePerms
      · exact within_refl
  split
  · -- the default realm
    refine hmask false ((?_ : Within _ _).or ?_)
    · obtain ⟨hr, hr'⟩ | ⟨other, other', hr, hr', hother⟩ := rel_cases (hacl.simple_rel .otherobj) <;> rw [hr, hr']
      · exact within_refl
      · exact (hother.2.and within_refl).or within_refl
    · split
      · exact (hacl.simple .otherobj).2
      · exact within_refl
  · obtain ⟨hd, hd'⟩ | ⟨d, d', hd, hd', hdel⟩ := rel_cases h.otherDelegateEntryP <;> rw [hd, hd']
    swap
    · exact hmask true hdel.2
    obtain ⟨hf, hf'⟩ | ⟨foreign, foreign', hf, hf', hforeign⟩ := rel_cases h.otherEntryP <;> rw [hf, hf']
    swap
    · exact hmask true hforeign.2
    obtain ⟨he, he'⟩ | ⟨e, e', he, he', hanydel⟩ := rel_cases (hacl.simple_rel .anyother_delegate) <;> rw [he, he']
    swap
    · exact hmask true hanydel.2
    obtain ⟨ha, ha'⟩ | ⟨any, any', ha, ha', hany⟩ := rel_cases (hacl.simple_rel .anyother) <;> rw [ha, ha']
    · exact within_refl
    · exact hmask true hany.2

end dce.dacl
