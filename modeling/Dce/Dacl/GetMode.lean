import Dce.Dacl.Access

open lib dce.sec

namespace dce.dacl

def dacl_OnePermsetToPermBits (thePermset : dacl_permset_t) : BitVec 32 :=
  let permBits : BitVec 32 := 0
  let permBits := if thePermset &&& dacl_perm_read ≠ 0 then permBits ||| S_IREAD else permBits
  let permBits := if thePermset &&& dacl_perm_write ≠ 0 then permBits ||| S_IWRITE else permBits
  if thePermset &&& dacl_perm_execute ≠ 0 then permBits ||| S_IEXEC else permBits

def DACL_ALL_USER_PERMBITS : BitVec 32 := S_IREAD ||| S_IWRITE ||| S_IEXEC

/-- `dacl_ExtractPermBits`, for pointers that are not null. -/
def dacl_ExtractPermBits (acl : dacl_t) : BitVec 32 :=
  let thePermBits : BitVec 32 :=
    match simpleEntry acl .userobj with
    | some userObjEntry => dacl_OnePermsetToPermBits userObjEntry.perms
    | none => DACL_ALL_USER_PERMBITS
  let tempPermBits : BitVec 32 :=
    match simpleEntry acl .maskobj with
    | some maskObjEntry => dacl_OnePermsetToPermBits maskObjEntry.perms
    | none =>
      match simpleEntry acl .groupobj with
      | some groupObjEntry => dacl_OnePermsetToPermBits groupObjEntry.perms
      | none => DACL_ALL_USER_PERMBITS
  let thePermBits := thePermBits ||| tempPermBits >>> 3
  let tempPermBits : BitVec 32 :=
    match simpleEntry acl .otherobj with
    | some otherObjEntry => dacl_OnePermsetToPermBits otherObjEntry.perms
    | none => DACL_ALL_USER_PERMBITS
  thePermBits ||| tempPermBits >>> 6

/-- The types of simple entries, up to `dacl_simple_entry_type_unauthmask`. -/
def dacl_simple_entry_type_t.all : List dacl_simple_entry_type_t :=
  [.userobj, .groupobj, .otherobj, .maskobj, .anyother, .userobj_delegate, .groupobj_delegate, .otherobj_delegate,
    .anyother_delegate, .unauthmask]

/-- The types of lists, up to `dacl_complex_entry_type_other`. -/
def dacl_complex_entry_type_t.all : List dacl_complex_entry_type_t :=
  [.user, .group, .user_delegate, .group_delegate, .for_other_delegate, .other]

def dacl_ExtractMinimumPermSet (acl : dacl_t) : dacl_permset_t :=
  if (acl.simple_entries .anyother).is_entry_good = 0 then 0
  else
    let permset := dacl_simple_entry_type_t.all.foldl (fun permset i =>
      if (acl.simple_entries i).is_entry_good ≠ 0 then permset &&& (acl.simple_entries i).perms else permset) (.allOnes 32)
    dacl_complex_entry_type_t.all.foldl (fun permset i =>
      (acl.complex_entries i).foldl (fun permset entry => permset &&& entry.perms) permset) permset

variable {acl : dacl_t} {perms : dacl_permset_t}

/-- The marks of simple entries are set to 0 and 1 only. -/
def Flagged (acl : dacl_t) : Prop := ∀ type, (acl.simple_entries type).is_entry_good = 0 ∨ (acl.simple_entries type).is_entry_good = 1

/-- Permissions that every entry of an ACL gives. -/
structure Common (acl : dacl_t) (perms : dacl_permset_t) : Prop where
  simple : ∀ type entry, simpleEntry acl type = some entry → Within perms entry.perms
  complex : ∀ list, ∀ entry ∈ acl.complex_entries list, Within perms entry.perms

theorem dacl_simple_entry_type_t.mem_all (type : dacl_simple_entry_type_t) : type ∈ all := by
  cases type <;> decide

theorem dacl_complex_entry_type_t.mem_all (list : dacl_complex_entry_type_t) : list ∈ all := by
  cases list <;> decide

theorem Flagged.good_iff (hflagged : Flagged acl) (type : dacl_simple_entry_type_t) :
    (acl.simple_entries type).is_entry_good ≠ 0 ↔ simpleEntry acl type = some (acl.simple_entries type) := by
  rw [simpleEntry]
  obtain h | h := hflagged type <;> simp [h]

theorem within_minimum_iff (hflagged : Flagged acl) (hany : simpleEntry acl .anyother ≠ none) :
    Within perms (dacl_ExtractMinimumPermSet acl) ↔ Common acl perms := by
  have hgood : ¬ (acl.simple_entries .anyother).is_entry_good = 0 := by
    intro hzero
    refine hany ?_
    rw [simpleEntry, hzero]
    rfl
  have hlist : ∀ permset list, Within perms ((acl.complex_entries list).foldl (fun permset entry => permset &&& entry.perms) permset) ↔
      Within perms permset ∧ ∀ entry ∈ acl.complex_entries list, Within perms entry.perms := by
    intro permset list
    exact within_foldl_iff (P := fun entry : dacl_entry_t => Within perms entry.perms) (fun permset entry => within_and_iff) _ _
  have hsimple : ∀ permset type, Within perms
      (if (acl.simple_entries type).is_entry_good ≠ 0 then permset &&& (acl.simple_entries type).perms else permset) ↔
        Within perms permset ∧ ∀ entry, simpleEntry acl type = some entry → Within perms entry.perms := by
    intro permset type
    split_ifs with his
    · rw [(hflagged.good_iff type).mp his, within_and_iff]
      simp
    · have hnone : simpleEntry acl type = none := by
        rw [simpleEntry, if_neg]
        intro hone
        exact his (by rw [hone]; decide)
      simp [hnone]
  rw [dacl_ExtractMinimumPermSet, if_neg hgood]
  dsimp only
  rw [within_foldl_iff hlist, within_foldl_iff hsimple]
  constructor
  · rintro ⟨⟨-, h⟩, h'⟩
    exact ⟨fun type => h type type.mem_all, fun list => h' list list.mem_all⟩
  · intro h
    exact ⟨⟨within_allOnes, fun type _ => h.simple type⟩, fun list _ => h.complex list⟩

theorem minimum_eq_zero (hflagged : Flagged acl) (hnone : simpleEntry acl .anyother = none) : dacl_ExtractMinimumPermSet acl = 0 := by
  refine if_pos ?_
  by_contra hgood
  rw [(hflagged.good_iff .anyother).mp hgood] at hnone
  exact absurd hnone (by simp)

theorem minimum_common (hflagged : Flagged acl) : Common acl (dacl_ExtractMinimumPermSet acl) := by
  by_cases hany : simpleEntry acl .anyother = none
  · rw [minimum_eq_zero hflagged hany]
    exact ⟨fun _ _ _ => zero_within, fun _ _ _ => zero_within⟩
  · exact (within_minimum_iff hflagged hany).mp within_refl

def modeBits (read write execute : Bool) : BitVec 32 :=
  (if read then S_IREAD else 0) ||| (if write then S_IWRITE else 0) ||| if execute then S_IEXEC else 0

def modePerms (read write execute : Bool) : dacl_permset_t :=
  (if read then dacl_perm_read else 0) ||| (if write then dacl_perm_write else 0) ||| if execute then dacl_perm_execute else 0

theorem addl_modeBits : ∀ r w x r' w' x' r'' w'' x'' : Bool,
    let masks := dacl_AddPermBitsToPermsets (modeBits r w x ||| modeBits r' w' x' >>> 3 ||| modeBits r'' w'' x'' >>> 6)
    masks.addlOwnerMask = modePerms r w x ∧ masks.addlGroupMask = modePerms r' w' x' ∧
      masks.addlOtherMask = modePerms r'' w'' x'' := by
  decide +kernel

theorem ne_zero_iff (perms : dacl_permset_t) :
    (perms &&& dacl_perm_read ≠ 0 ↔ perms.getLsbD 0 = true) ∧ (perms &&& dacl_perm_write ≠ 0 ↔ perms.getLsbD 1 = true) ∧
      (perms &&& dacl_perm_execute ≠ 0 ↔ perms.getLsbD 2 = true) := by
  have hone : ∀ i < 32, (perms &&& BitVec.twoPow 32 i ≠ 0 ↔ perms.getLsbD i = true) := by
    intro i hi
    rw [BitVec.and_twoPow]
    cases perms.getLsbD i with
    | false => simp
    | true =>
      have hne : BitVec.twoPow 32 i ≠ 0 := by
        intro hzero
        have hbit := congrArg (·.getLsbD i) hzero
        simp [hi] at hbit
      simpa using hne
  exact ⟨hone 0 (by decide), hone 1 (by decide), hone 2 (by decide)⟩

theorem onePermset_eq (perms : dacl_permset_t) :
    dacl_OnePermsetToPermBits perms = modeBits (perms.getLsbD 0) (perms.getLsbD 1) (perms.getLsbD 2) := by
  unfold dacl_OnePermsetToPermBits
  simp only [ne_zero_iff]
  cases perms.getLsbD 0 <;> cases perms.getLsbD 1 <;> cases perms.getLsbD 2 <;> decide

theorem and_rwx_eq (perms : dacl_permset_t) :
    perms &&& DACL_PERM_RWX = modePerms (perms.getLsbD 0) (perms.getLsbD 1) (perms.getLsbD 2) := by
  have hparts : perms &&& DACL_PERM_RWX =
      perms &&& BitVec.twoPow 32 0 ||| perms &&& BitVec.twoPow 32 1 ||| perms &&& BitVec.twoPow 32 2 := by
    rw [← BitVec.and_or_distrib_left, ← BitVec.and_or_distrib_left]
    rfl
  rw [hparts, BitVec.and_twoPow, BitVec.and_twoPow, BitVec.and_twoPow]
  cases perms.getLsbD 0 <;> cases perms.getLsbD 1 <;> cases perms.getLsbD 2 <;> decide

theorem addl_onePermset (user group other : dacl_permset_t) :
    let masks := dacl_AddPermBitsToPermsets
      (dacl_OnePermsetToPermBits user ||| dacl_OnePermsetToPermBits group >>> 3 ||| dacl_OnePermsetToPermBits other >>> 6)
    masks.addlOwnerMask = user &&& DACL_PERM_RWX ∧ masks.addlGroupMask = group &&& DACL_PERM_RWX ∧
      masks.addlOtherMask = other &&& DACL_PERM_RWX := by
  simp only [onePermset_eq, and_rwx_eq]
  exact addl_modeBits _ _ _ _ _ _ _ _ _

end dce.dacl
