import Dce.Cds.Attributes
import Dce.Lib.Merge
import Mathlib.Data.List.TakeWhile

open lib

namespace dce.cds

def Timestamp_t.stamp (ts : Timestamp_t) : ℕ := ts.ts_time.toNat * 2 ^ 48 + ts.ts_node.toNat

theorem stamp_inj {ts1 ts2 : Timestamp_t} : ts1.stamp = ts2.stamp ↔ ts1 = ts2 := by
  refine ⟨fun h => ?_, fun h => h ▸ rfl⟩
  obtain ⟨time1, node1⟩ := ts1
  obtain ⟨time2, node2⟩ := ts2
  have hnode1 := node1.isLt
  have hnode2 := node2.isLt
  simp only [Timestamp_t.stamp] at h
  obtain rfl : time1 = time2 := BitVec.eq_of_toNat_eq (by omega)
  obtain rfl : node1 = node2 := BitVec.eq_of_toNat_eq (by omega)
  rfl

theorem dnsCmpCTS_nonneg {ts1 ts2 : Timestamp_t} : 0 ≤ dnsCmpCTS ts1 ts2 ↔ ts2.stamp ≤ ts1.stamp := by
  have hnode1 := ts1.ts_node.isLt
  have hnode2 := ts2.ts_node.isLt
  simp only [dnsCmpCTS, Timestamp_t.stamp, BitVec.lt_def]
  split
  · omega
  · split
    · omega
    · split
      · omega
      · split <;> omega

/-- What an update says of its attribute. -/
structure Change where
  ts : Timestamp_t
  present : Bool
  value : Option AttributeValue
  deriving DecidableEq

def Update_t.change (upd : Update_t) : Change := ⟨upd.ud_timestamp, upd.ud_operation = .UD_present, upd.value⟩

def DBSetMember_t.change (member : DBSetMember_t) : Change := ⟨member.dm_ts, member.dm_flag = .DM_present, member.value⟩

def Change.clears (change : Change) : Bool := !change.present && change.value.isNone

variable (simpleName : List Byte → List Byte) (dns : Option attribute_descriptor_t) (type : AT)

def SameValue (change1 change2 : Change) : Prop :=
  ∃ value1 ∈ change1.value, ∃ value2 ∈ change2.value, comparedPart simpleName dns value1 = comparedPart simpleName dns value2

/-- The first change is newer, and the second one does not count any more: the attribute has a single value, or its whole set was
taken away, or the change is about the same value. -/
def Beats (change1 change2 : Change) : Prop :=
  change2.ts.stamp < change1.ts.stamp ∧ (type = .AT_single ∨ change1.clears ∨ SameValue simpleName dns change1 change2)

/-- The visible content after a history of updates: of a single value the newest one, of a set the members whose newest update is
present and newer than all that took the whole set away. -/
def content (history : List Change) (value : AttributeValue) : Prop :=
  ∃ change, Unbeaten (Beats simpleName dns type) history change ∧ change.present ∧ change.value = some value

/-- The values that a reader of the attribute gets. -/
def visible (set : Option DBSet_t) (value : AttributeValue) : Prop :=
  ∃ s, set = some s ∧ s.ds_flag = true ∧ ∃ member ∈ s.members, member.dm_valid = true ∧ member.value = some value

variable {simpleName dns type}

theorem Beats.trans {a b c : Change} (hab : Beats simpleName dns type a b) (hbc : Beats simpleName dns type b c) :
    Beats simpleName dns type a c := by
  refine ⟨hbc.1.trans hab.1, ?_⟩
  obtain hsingle | hclears | ⟨x, hx, y, hy, hxy⟩ := hab.2
  · exact .inl hsingle
  · exact .inr (.inl hclears)
  · obtain hsingle | hclears | ⟨y', hy', z, hz, hyz⟩ := hbc.2
    · exact .inl hsingle
    · simp [Change.clears, Option.mem_def.mp hy] at hclears
    · obtain rfl : y = y' := Option.some.inj (hy.symm.trans hy')
      exact .inr (.inr ⟨x, hx, z, hz, hxy.trans hyz⟩)

variable (simpleName dns type)

/-- What the set of an attribute is like after any updates: its members are in order of time, the last one tells the time and the
state of the set, and a member is valid if its value is present and no other member beats it. -/
structure Kept (set : DBSet_t) : Prop where
  ds_type : set.ds_type = type
  dm_type : ∀ member ∈ set.members, member.dm_type = type
  dm_flag : ∀ member ∈ set.members, member.dm_flag ≠ .DM_remove
  sorted : set.members.Pairwise fun member1 member2 => member1.dm_ts.stamp < member2.dm_ts.stamp
  last : ∃ last ∈ set.members.getLast?, set.ds_ts = last.dm_ts ∧
    (set.ds_flag = false ↔ last.dm_flag = .DM_absent ∧ (type = .AT_single ∨ last.value = none))
  valid : ∀ member ∈ set.members, member.dm_valid = true ↔
    member.dm_flag = .DM_present ∧ ∀ other ∈ set.members, ¬ Beats simpleName dns type other.change member.change

variable {simpleName dns type} {set : DBSet_t} {upd : Update_t}

theorem purge_append {members kept : List DBSetMember_t} (hne : kept ≠ []) (hflag : ∀ member ∈ kept, member.dm_flag ≠ .DM_remove) :
    purge (members ++ kept) = members.filter (·.dm_flag ≠ .DM_remove) ++ kept := by
  induction members with
  | nil =>
    rw [List.nil_append, List.filter_nil, List.nil_append]
    clear hne
    induction kept with
    | nil => rfl
    | cons member kept ih =>
      cases kept with
      | nil => rfl
      | cons next kept =>
        rw [purge.eq_3 _ _ (by simp), if_neg (hflag _ List.mem_cons_self), ih fun m hm => hflag m (List.mem_cons_of_mem _ hm)]
  | cons member members ih =>
    have hne' : members ++ kept ≠ [] := by simp [hne]
    rw [List.cons_append, purge.eq_3 _ _ (by simpa using hne'), ih, List.filter_cons]
    split <;> simp_all

def supersedes (simpleName : List Byte → List Byte) (dns : Option attribute_descriptor_t) (upd : Update_t) (member : DBSetMember_t) : Bool :=
  overrides upd || match upd.value with
    | some value => hasValue simpleName dns value member
    | none => false

theorem overrides_iff : overrides upd = true ↔ upd.as_type = .AT_single ∨ upd.change.clears = true := by
  cases h : upd.ud_operation <;> simp [overrides, Change.clears, Update_t.change, h]

theorem hasValue_iff {member : DBSetMember_t} : (∃ value ∈ upd.value, hasValue simpleName dns value member = true) ↔
    SameValue simpleName dns upd.change member.change := by
  refine exists_congr fun value => and_congr_right fun _ => ?_
  cases h : member.value <;> simp [hasValue, DBSetMember_t.change, h]

theorem supersedes_iff {member : DBSetMember_t} : supersedes simpleName dns upd member = true ↔
    upd.as_type = .AT_single ∨ upd.change.clears = true ∨ SameValue simpleName dns upd.change member.change := by
  rw [supersedes, Bool.or_eq_true, overrides_iff, or_assoc, ← hasValue_iff]
  cases upd.value <;> simp

theorem modifyLast_invalidateSingle {members : List DBSetMember_t} (htypes : ∀ member ∈ members, member.dm_type = .AT_set) :
    modifyLast invalidateSingle members = members := by
  induction members with
  | nil => rfl
  | cons member members ih =>
    have hrest := ih fun m hm => htypes m (List.mem_cons_of_mem _ hm)
    cases members with
    | nil => simp [modifyLast, invalidateSingle, htypes member List.mem_cons_self]
    | cons next members => rw [modifyLast.eq_3 _ _ _ (by simp), hrest]

variable (simpleName dns upd) in
theorem filter_invalidatePrevious {before : List DBSetMember_t} (htypes : ∀ member ∈ before, member.dm_type = upd.as_type)
    (hflags : ∀ member ∈ before, member.dm_flag ≠ .DM_remove) :
    (invalidatePrevious simpleName upd dns before).filter (·.dm_flag ≠ .DM_remove) =
      before.filter (!supersedes simpleName dns upd ·) := by
  by_cases hoverrides : overrides upd = true
  · rw [invalidatePrevious, if_pos hoverrides]
    simp [supersedes, hoverrides, List.filter_map, DBSetMember_t.remove]
  · have hset : upd.as_type = .AT_set := by
      cases h : upd.as_type with
      | AT_single => exact absurd (overrides_iff.mpr (.inl h)) hoverrides
      | AT_set => rfl
    rw [hset] at htypes
    rw [invalidatePrevious, if_neg hoverrides, modifyLast_invalidateSingle htypes]
    induction before with
    | nil => rfl
    | cons member before ih =>
      have hrest := ih (fun m hm => htypes m (List.mem_cons_of_mem _ hm)) fun m hm => hflags m (List.mem_cons_of_mem _ hm)
      have htype := htypes member List.mem_cons_self
      have hflag := hflags member List.mem_cons_self
      rw [List.map_cons, List.filter_cons, hrest, List.filter_cons]
      cases hvalue : upd.value with
      | none => simp [supersedes, hoverrides, hvalue, hflag]
      | some value =>
        by_cases hsame : hasValue simpleName dns value member = true
        · simp [supersedes, hvalue, hsame, htype, DBSetMember_t.remove]
        · simp [supersedes, hoverrides, hvalue, hsame, hflag]

theorem find_ts_position_spec (members : List DBSetMember_t) (ts : Timestamp_t)
    (hsorted : members.Pairwise fun member1 member2 => member1.dm_ts.stamp < member2.dm_ts.stamp) :
    (find_ts_position members ts).1 ++ (find_ts_position members ts).2 = members ∧
      (∀ member ∈ (find_ts_position members ts).1, member.dm_ts.stamp ≤ ts.stamp) ∧
      ∀ member ∈ (find_ts_position members ts).2, ts.stamp < member.dm_ts.stamp := by
  refine ⟨List.takeWhile_append_dropWhile, fun member hmem => ?_, ?_⟩
  · have hle := List.mem_takeWhile_imp (p := fun member : DBSetMember_t => decide (0 ≤ dnsCmpCTS ts member.dm_ts)) hmem
    exact dnsCmpCTS_nonneg.mp (of_decide_eq_true hle)
  · induction members with
    | nil => exact fun _ h => absurd h List.not_mem_nil
    | cons first members ih =>
      obtain ⟨hfirst, hsorted⟩ := List.pairwise_cons.mp hsorted
      intro member hmem
      simp only [find_ts_position, List.dropWhile_cons] at hmem ih
      split at hmem
      · exact ih hsorted member hmem
      · rename_i hnot
        have hlater : ts.stamp < first.dm_ts.stamp := by
          by_contra hle
          exact hnot (decide_eq_true (dnsCmpCTS_nonneg.mpr (not_lt.mp hle)))
        obtain rfl | hmem := List.mem_cons.mp hmem
        · exact hlater
        · exact hlater.trans (hfirst member hmem)

/-- A value is added by an update older than every member of the set, while a member has the value and none of them takes the
whole set away. Only later members are there, and they are not looked at. -/
structure MissesLater (simpleName : List Byte → List Byte) (dns : Option attribute_descriptor_t) (set : DBSet_t) (upd : Update_t) : Prop where
  type : upd.as_type = .AT_set
  present : upd.ud_operation = .UD_present
  oldest : ∀ member ∈ set.members, upd.ud_timestamp.stamp < member.dm_ts.stamp
  same : ∃ member ∈ set.members, SameValue simpleName dns upd.change member.change
  kept : ∀ member ∈ set.members, member.change.clears = false

/-- What becomes of the member of an update, given the members behind its place: it is marked for removal only if one of them beats
it, and otherwise it is valid if its value is present and none of them beats it. -/
structure Placed (simpleName : List Byte → List Byte) (dns : Option attribute_descriptor_t) (upd : Update_t) (new : DBSetMember_t)
    (after : List DBSetMember_t) : Prop where
  removed : new.dm_flag = .DM_remove → ∃ member ∈ after, Beats simpleName dns upd.as_type member.change upd.change
  dm_flag : new.dm_flag ≠ .DM_remove → new.dm_flag = upd.ud_operation.flag
  dm_type : new.dm_type = upd.as_type
  dm_ts : new.dm_ts = upd.ud_timestamp
  value : new.value = upd.value
  valid : new.dm_flag ≠ .DM_remove → (new.dm_valid = true ↔
    upd.ud_operation = .UD_present ∧ ∀ member ∈ after, ¬ Beats simpleName dns upd.as_type member.change upd.change)

theorem flag_ne_remove (operation : UD) : operation.flag ≠ .DM_remove := by cases operation <;> simp [UD.flag]

theorem flag_eq_present {operation : UD} : operation.flag = .DM_present ↔ operation = .UD_present := by cases operation <;> simp [UD.flag]

theorem flag_eq_absent {operation : UD} : operation.flag = .DM_absent ↔ operation = .UD_absent := by cases operation <;> simp [UD.flag]

variable (simpleName dns upd) in
theorem invalidateNew_cases (before after : List DBSetMember_t) :
    (invalidateNew simpleName upd dns before after = upd.member.remove ∧
        ∃ member ∈ after, SameValue simpleName dns upd.change member.change) ∨
      invalidateNew simpleName upd dns before after = upd.member ∧
        (overrides upd = false → before ≠ [] → ∀ member ∈ after, ¬ SameValue simpleName dns upd.change member.change) := by
  simp only [← hasValue_iff, invalidateNew]
  cases hvalue : upd.value with
  | none => simp
  | some value =>
    by_cases hmarked : (!overrides upd && !before.isEmpty && after.any (hasValue simpleName dns value)) = true
    · refine .inl ⟨if_pos hmarked, ?_⟩
      simp only [Bool.and_eq_true, List.any_eq_true] at hmarked
      simpa using hmarked.2
    · refine .inr ⟨if_neg hmarked, fun hoverrides hbefore => ?_⟩
      simpa [hoverrides, hbefore] using hmarked

theorem SameValue.symm {change1 change2 : Change} (h : SameValue simpleName dns change1 change2) : SameValue simpleName dns change2 change1 := by
  obtain ⟨x, hx, y, hy, hxy⟩ := h
  exact ⟨y, hy, x, hx, hxy.symm⟩

theorem wipesOut_iff {member : DBSetMember_t} (htype : member.dm_type = .AT_set) (hflag : member.dm_flag ≠ .DM_remove) :
    wipesOut member = true ↔ member.change.clears = true := by
  cases h : member.dm_flag <;> simp_all [wipesOut, Change.clears, DBSetMember_t.change]

theorem placed_remove {after : List DBSetMember_t} (valid : Bool)
    (hbeaten : ∃ member ∈ after, Beats simpleName dns upd.as_type member.change upd.change) :
    Placed simpleName dns upd { upd.member.remove with dm_valid := valid } after where
  removed _ := hbeaten
  dm_flag h := absurd rfl h
  dm_type := rfl
  dm_ts := rfl
  value := rfl
  valid h := absurd rfl h

theorem placed_member {after : List DBSetMember_t} {valid : Bool} (hvalid : valid = true ↔ upd.ud_operation = .UD_present ∧
      ∀ member ∈ after, ¬ Beats simpleName dns upd.as_type member.change upd.change) :
    Placed simpleName dns upd { upd.member with dm_valid := valid } after where
  removed h := absurd h (flag_ne_remove _)
  dm_flag _ := rfl
  dm_type := rfl
  dm_ts := rfl
  value := rfl
  valid _ := hvalid

theorem last_mem {before after : List DBSetMember_t} (hmembers : before ++ after = set.members) {last : DBSetMember_t}
    (hlast : last ∈ set.members.getLast?) : (after = [] ∧ last ∈ before) ∨ last ∈ after := by
  rw [← hmembers] at hlast
  cases hafter : after with
  | nil =>
    rw [hafter, List.append_nil] at hlast
    exact .inl ⟨rfl, List.mem_of_getLast? hlast⟩
  | cons first rest =>
    rw [hafter, List.getLast?_append_of_ne_nil _ (List.cons_ne_nil _ _)] at hlast
    exact .inr (List.mem_of_getLast? hlast)

theorem newest_iff (hkept : Kept simpleName dns upd.as_type set) {before after : List DBSetMember_t} (hmembers : before ++ after = set.members)
    (hbefore : ∀ member ∈ before, member.dm_ts.stamp < upd.ud_timestamp.stamp)
    (hafter : ∀ member ∈ after, upd.ud_timestamp.stamp < member.dm_ts.stamp) : 0 ≤ dnsCmpCTS upd.ud_timestamp set.ds_ts ↔ after = [] := by
  obtain ⟨last, hlast, hts, _⟩ := hkept.last
  rw [dnsCmpCTS_nonneg, hts]
  obtain ⟨rfl, hlastBefore⟩ | hlastAfter := last_mem hmembers hlast
  · exact iff_of_true (hbefore last hlastBefore).le rfl
  · exact iff_of_false (not_le.mpr (hafter last hlastAfter)) (List.ne_nil_of_mem hlastAfter)

theorem determine_spec (hkept : Kept simpleName dns upd.as_type set) (before' : List DBSetMember_t) {before after : List DBSetMember_t}
    (hmembers : before ++ after = set.members) (hbefore : ∀ member ∈ before, member.dm_ts.stamp < upd.ud_timestamp.stamp)
    (hafter : ∀ member ∈ after, upd.ud_timestamp.stamp < member.dm_ts.stamp) (hlater : ¬ MissesLater simpleName dns set upd) :
    ∃ new, Placed simpleName dns upd new after ∧
      (determine set upd (invalidateNew simpleName upd dns before after) before' after).members = before' ++ new :: after := by
  obtain ⟨last, hlast, _, hflag⟩ := hkept.last
  have hmem (member) (hmember : member ∈ after) : member ∈ set.members := by simp [← hmembers, hmember]
  have hbeats {member : DBSetMember_t} (hmember : member ∈ after)
      (hwhy : upd.as_type = .AT_single ∨ member.change.clears = true ∨ SameValue simpleName dns member.change upd.change) :
      ∃ member ∈ after, Beats simpleName dns upd.as_type member.change upd.change :=
    ⟨member, hmember, hafter member hmember, hwhy⟩
  have hnew := invalidateNew_cases simpleName dns upd before after
  obtain ⟨rfl, _⟩ | hlastAfter := last_mem hmembers hlast
  · have hnewest := (newest_iff hkept hmembers hbefore hafter).mpr rfl
    obtain ⟨_, member, hmember, _⟩ | ⟨hnew, _⟩ := hnew
    · exact absurd hmember List.not_mem_nil
    · refine ⟨{ upd.member with dm_valid := upd.ud_operation = .UD_present }, placed_member (by simp), ?_⟩
      rw [determine, if_pos hnewest, hnew]
  · have hnotNewest := (newest_iff hkept hmembers hbefore hafter).not.mpr (List.ne_nil_of_mem hlastAfter)
    rw [determine, if_neg hnotNewest]
    by_cases hinvalid : upd.as_type = .AT_single ∨ upd.ud_operation = .UD_absent
    · rw [if_pos hinvalid]
      obtain ⟨hnew, member, hmember, hsame⟩ | ⟨hnew, _⟩ := hnew
      · exact ⟨_, placed_remove false (hbeats hmember (.inr (.inr hsame.symm))), by rw [hnew]⟩
      · refine ⟨{ upd.member with dm_valid := false }, placed_member ?_, by rw [hnew]⟩
        refine iff_of_false Bool.false_ne_true fun ⟨hpresent, hunbeaten⟩ => ?_
        obtain hsingle | habsent := hinvalid
        · exact hunbeaten last hlastAfter ⟨hafter last hlastAfter, .inl hsingle⟩
        · rw [habsent] at hpresent
          cases hpresent
    · rw [if_neg hinvalid]
      obtain ⟨hset, hpresent⟩ := not_or.mp hinvalid
      replace hset : upd.as_type = .AT_set := by cases h : upd.as_type <;> simp_all
      replace hpresent : upd.ud_operation = .UD_present := by cases h : upd.ud_operation <;> simp_all
      have hwipes (member) (hmember : member ∈ after) : wipesOut member = true ↔ member.change.clears = true :=
        wipesOut_iff ((hkept.dm_type member (hmem member hmember)).trans hset) (hkept.dm_flag member (hmem member hmember))
      cases hds : set.ds_flag with
      | false =>
        obtain ⟨habsent, hsingle | hvalue⟩ := hflag.mp hds
        · rw [hset] at hsingle
          cases hsingle
        · have hclears : last.change.clears = true := by simp [Change.clears, DBSetMember_t.change, habsent, hvalue]
          have hremoved : (invalidateNew simpleName upd dns before after).remove = { upd.member.remove with dm_valid := false } := by
            obtain ⟨hnew, _⟩ | ⟨hnew, _⟩ := hnew
            · rw [hnew]
              rfl
            · rw [hnew]
              rfl
          exact ⟨_, placed_remove false (hbeats hlastAfter (.inr (.inl hclears))), by simp [hremoved]⟩
      | true =>
        by_cases hany : after.any wipesOut = true
        · obtain ⟨member, hmember, hwipe⟩ := List.any_eq_true.mp hany
          have hremoved : { (invalidateNew simpleName upd dns before after).remove with dm_valid := true } =
              { upd.member.remove with dm_valid := true } := by
            obtain ⟨hnew, _⟩ | ⟨hnew, _⟩ := hnew
            · rw [hnew]
              rfl
            · rw [hnew]
          refine ⟨_, placed_remove true (hbeats hmember (.inr (.inl ((hwipes member hmember).mp hwipe)))), ?_⟩
          simp [hany, hremoved]
        · obtain ⟨hnew, member, hmember, hsame⟩ | ⟨hnew, hunmarked⟩ := hnew
          · exact ⟨_, placed_remove true (hbeats hmember (.inr (.inr hsame.symm))), by simp [hany, hnew]⟩
          · refine ⟨{ upd.member with dm_valid := true }, placed_member ?_, by simp [hany, hnew]⟩
            refine iff_of_true rfl ⟨hpresent, fun member hmember hbeaten => ?_⟩
            have hnotClears (other) (hother : other ∈ after) : other.change.clears = false := by
              by_contra hclears
              exact hany (List.any_eq_true.mpr ⟨other, hother, (hwipes other hother).mpr (by simpa using hclears)⟩)
            obtain hsingle | hclears | hsame := hbeaten.2
            · rw [hset] at hsingle
              cases hsingle
            · rw [hnotClears member hmember] at hclears
              cases hclears
            · have hoverrides : overrides upd = false := by simp [overrides, hset, hpresent]
              obtain rfl | hne := eq_or_ne before []
              · rw [List.nil_append] at hmembers
                exact hlater ⟨hset, hpresent, hmembers ▸ hafter, ⟨member, hmem member hmember, hsame.symm⟩, hmembers ▸ hnotClears⟩
              · exact hunmarked hoverrides hne member hmember hsame.symm

/-- The changes that the members of a set tell of. -/
def DBSet_t.changes (set : DBSet_t) : List Change := set.members.map DBSetMember_t.change

theorem getLast?_find_ts_position {members : List DBSetMember_t} {ts : Timestamp_t}
    (hsorted : members.Pairwise fun member1 member2 => member1.dm_ts.stamp < member2.dm_ts.stamp) {member : DBSetMember_t}
    (hmem : member ∈ members) (hts : member.dm_ts = ts) : (find_ts_position members ts).1.getLast? = some member := by
  obtain ⟨happend, hbefore, hafter⟩ := find_ts_position_spec members ts hsorted
  rw [← happend] at hmem hsorted
  obtain hmem | hmem := List.mem_append.mp hmem
  · obtain ⟨front, back, heq⟩ := List.append_of_mem hmem
    rw [heq] at hsorted hbefore ⊢
    cases back with
    | nil => simp
    | cons next back =>
      have hlater := (List.pairwise_cons.mp (List.pairwise_append.mp (List.pairwise_append.mp hsorted).1).2.1).1 next List.mem_cons_self
      have hle := hbefore next (by simp)
      rw [hts] at hlater
      exact absurd hlater (not_lt.mpr hle)
  · exact absurd (hafter member hmem) (by simp [hts])

theorem haveUpdate_iff (hkept : Kept simpleName dns upd.as_type set)
    (hdistinct : ∀ member ∈ set.members, member.dm_ts = upd.ud_timestamp → member.change = upd.change) :
    haveUpdate simpleName upd dns (find_ts_position set.members upd.ud_timestamp).1 = true ↔ upd.change ∈ set.changes := by
  obtain ⟨happend, _, _⟩ := find_ts_position_spec set.members upd.ud_timestamp hkept.sorted
  constructor
  · intro h
    cases hlast : (find_ts_position set.members upd.ud_timestamp).1.getLast? with
    | none => simp [haveUpdate, hlast] at h
    | some member =>
      have hmem : member ∈ set.members := by
        rw [← happend]
        exact List.mem_append_left _ (List.mem_of_getLast? hlast)
      have hts : member.dm_ts = upd.ud_timestamp := by
        simp only [haveUpdate, hlast, Bool.or_eq_true, Bool.and_eq_true, decide_eq_true_eq] at h
        obtain h | h := h
        · exact h.2
        · exact h.1.1.1.1
      exact List.mem_map.mpr ⟨member, hmem, hdistinct member hmem hts⟩
  · intro h
    obtain ⟨member, hmem, hchange⟩ := List.mem_map.mp h
    obtain ⟨hts, hpresent, hvalue⟩ := Change.mk.inj hchange
    have hflag : upd.ud_operation.flag = member.dm_flag := by
      have hne := hkept.dm_flag member hmem
      cases hop : upd.ud_operation <;> cases hdm : member.dm_flag <;> simp_all [UD.flag]
    rw [haveUpdate, getLast?_find_ts_position hkept.sorted hmem hts]
    cases hv : upd.value <;> simp [hts, hvalue, hflag, hkept.dm_type member hmem, hv, hasValue]

theorem determine_set (hkept : Kept simpleName dns upd.as_type set) (before' : List DBSetMember_t) {before after : List DBSetMember_t}
    (hmembers : before ++ after = set.members) (hbefore : ∀ member ∈ before, member.dm_ts.stamp < upd.ud_timestamp.stamp)
    (hafter : ∀ member ∈ after, upd.ud_timestamp.stamp < member.dm_ts.stamp) (new : DBSetMember_t) :
    (determine set upd new before' after).ds_type = upd.as_type ∧
      ((after = [] ∧ (determine set upd new before' after).ds_ts = upd.ud_timestamp ∧
          (determine set upd new before' after).ds_flag = !((upd.as_type = .AT_single || upd.value.isNone) && upd.ud_operation ≠ .UD_present)) ∨
        after ≠ [] ∧ (determine set upd new before' after).ds_ts = set.ds_ts ∧
          (determine set upd new before' after).ds_flag = set.ds_flag) := by
  have hiff := newest_iff hkept hmembers hbefore hafter
  by_cases hnewest : 0 ≤ dnsCmpCTS upd.ud_timestamp set.ds_ts
  · rw [determine, if_pos hnewest]
    exact ⟨rfl, .inl ⟨hiff.mp hnewest, rfl, rfl⟩⟩
  · rw [determine, if_neg hnewest]
    have hne := hiff.not.mp hnewest
    split
    · exact ⟨hkept.ds_type, .inr ⟨hne, rfl, rfl⟩⟩
    · split
      · exact ⟨hkept.ds_type, .inr ⟨hne, rfl, rfl⟩⟩
      · exact ⟨hkept.ds_type, .inr ⟨hne, rfl, rfl⟩⟩

/-- The members of a set after an update that it did not have: those before its place that it does not supersede, its own one
unless that is marked, and those behind. -/
structure Inserted (simpleName : List Byte → List Byte) (dns : Option attribute_descriptor_t) (set : DBSet_t) (upd : Update_t)
    (result : DBSet_t) (before after : List DBSetMember_t) (new : DBSetMember_t) : Prop where
  members : before ++ after = set.members
  earlier : ∀ member ∈ before, member.dm_ts.stamp < upd.ud_timestamp.stamp
  later : ∀ member ∈ after, upd.ud_timestamp.stamp < member.dm_ts.stamp
  placed : Placed simpleName dns upd new after
  kept : result.members = before.filter (!supersedes simpleName dns upd ·) ++ (if new.dm_flag = .DM_remove then after else new :: after)
  ds_type : result.ds_type = upd.as_type
  state : (after = [] ∧ result.ds_ts = upd.ud_timestamp ∧
      result.ds_flag = !((upd.as_type = .AT_single || upd.value.isNone) && upd.ud_operation ≠ .UD_present)) ∨
    after ≠ [] ∧ result.ds_ts = set.ds_ts ∧ result.ds_flag = set.ds_flag

theorem set_insert_member_inserted (hkept : Kept simpleName dns upd.as_type set)
    (hdistinct : ∀ member ∈ set.members, member.dm_ts = upd.ud_timestamp → member.change = upd.change)
    (hlater : ¬ MissesLater simpleName dns set upd) (hnew : upd.change ∉ set.changes) :
    ∃ before after new, Inserted simpleName dns set upd (set_insert_member simpleName set upd dns) before after new := by
  obtain ⟨hmembers, hle, hafter⟩ := find_ts_position_spec set.members upd.ud_timestamp hkept.sorted
  have hnone := (haveUpdate_iff hkept hdistinct).not.mpr hnew
  rw [set_insert_member]
  generalize find_ts_position set.members upd.ud_timestamp = place at hmembers hle hafter hnone ⊢
  obtain ⟨before, after⟩ := place
  dsimp only at hmembers hle hafter hnone ⊢
  have hmemBefore (member) (hmem : member ∈ before) : member ∈ set.members := by simp [← hmembers, hmem]
  have hmemAfter (member) (hmem : member ∈ after) : member ∈ set.members := by simp [← hmembers, hmem]
  have hbefore (member) (hmem : member ∈ before) : member.dm_ts.stamp < upd.ud_timestamp.stamp := by
    refine lt_of_le_of_ne (hle member hmem) fun heq => hnew ?_
    exact List.mem_map.mpr ⟨member, hmemBefore member hmem, hdistinct member (hmemBefore member hmem) (stamp_inj.mp heq)⟩
  have hfilter := filter_invalidatePrevious simpleName dns upd
    (fun member hmem => hkept.dm_type member (hmemBefore member hmem)) fun member hmem => hkept.dm_flag member (hmemBefore member hmem)
  have hflags (member) (hmem : member ∈ after) := hkept.dm_flag member (hmemAfter member hmem)
  obtain ⟨new, hplaced, hdetermine⟩ := determine_spec hkept (invalidatePrevious simpleName upd dns before) hmembers hbefore
    hafter hlater
  obtain ⟨htype, hstate⟩ := determine_set hkept (invalidatePrevious simpleName upd dns before) hmembers hbefore hafter
    (invalidateNew simpleName upd dns before after)
  rw [if_neg hnone]
  refine ⟨before, after, new, hmembers, hbefore, hafter, hplaced, ?_, htype, hstate⟩
  simp only [hdetermine]
  by_cases hremoved : new.dm_flag = .DM_remove
  · obtain ⟨member, hmem, _⟩ := hplaced.removed hremoved
    rw [if_pos hremoved, List.append_cons, purge_append (List.ne_nil_of_mem hmem) hflags, List.filter_append, hfilter]
    simp [hremoved]
  · rw [if_neg hremoved, purge_append (List.cons_ne_nil _ _), hfilter]
    intro member hmem
    obtain rfl | hmem := List.mem_cons.mp hmem
    · exact hremoved
    · exact hflags member hmem

theorem Placed.change {new : DBSetMember_t} {after : List DBSetMember_t} (h : Placed simpleName dns upd new after)
    (hflag : new.dm_flag ≠ .DM_remove) : new.change = upd.change := by
  simp [DBSetMember_t.change, Update_t.change, h.dm_flag hflag, h.dm_ts, h.value, flag_eq_present]

namespace Inserted

variable {result : DBSet_t} {before after : List DBSetMember_t} {new member : DBSetMember_t}
  (h : Inserted simpleName dns set upd result before after new)

include h

theorem mem_iff : member ∈ result.members ↔
    (member ∈ before ∧ ¬ Beats simpleName dns upd.as_type upd.change member.change) ∨ (member = new ∧ new.dm_flag ≠ .DM_remove) ∨
      member ∈ after := by
  have hbefore : member ∈ before → (supersedes simpleName dns upd member = true ↔ Beats simpleName dns upd.as_type upd.change member.change) :=
    fun hmem => supersedes_iff.trans (and_iff_right (h.earlier member hmem)).symm
  rw [h.kept, List.mem_append, List.mem_filter]
  refine or_congr ?_ ?_
  · refine and_congr_right fun hmem => ?_
    rw [← hbefore hmem]
    simp
  · by_cases hremoved : new.dm_flag = .DM_remove <;> simp [hremoved]

theorem mem_of_before (hmem : member ∈ before) : member ∈ set.members := by simp [← h.members, hmem]

theorem mem_of_after (hmem : member ∈ after) : member ∈ set.members := by simp [← h.members, hmem]

theorem covers : Covers (Beats simpleName dns upd.as_type) result.changes (set.changes ++ [upd.change]) := by
  refine ⟨fun change hchange => ?_, fun change hchange => ?_⟩
  · obtain ⟨member, hmem, rfl⟩ := List.mem_map.mp hchange
    obtain ⟨hmem, _⟩ | ⟨rfl, hflag⟩ | hmem := h.mem_iff.mp hmem
    · exact List.mem_append_left _ (List.mem_map_of_mem (h.mem_of_before hmem))
    · rw [h.placed.change hflag]
      exact List.mem_append_right _ List.mem_cons_self
    · exact List.mem_append_left _ (List.mem_map_of_mem (h.mem_of_after hmem))
  · -- the update is left, or a later member that beats it
    have hupd : upd.change ∈ result.changes ∨ ∃ other ∈ result.changes, Beats simpleName dns upd.as_type other upd.change := by
      by_cases hflag : new.dm_flag = .DM_remove
      · obtain ⟨member, hmem, hbeats⟩ := h.placed.removed hflag
        exact .inr ⟨member.change, List.mem_map_of_mem (h.mem_iff.mpr (.inr (.inr hmem))), hbeats⟩
      · exact .inl (h.placed.change hflag ▸ List.mem_map_of_mem (h.mem_iff.mpr (.inr (.inl ⟨rfl, hflag⟩))))
    obtain hchange | hchange := List.mem_append.mp hchange
    · obtain ⟨member, hmem, rfl⟩ := List.mem_map.mp hchange
      rw [← h.members] at hmem
      obtain hmem | hmem := List.mem_append.mp hmem
      · by_cases hbeaten : Beats simpleName dns upd.as_type upd.change member.change
        · obtain hupd | ⟨other, hother, hbeats⟩ := hupd
          · exact .inr ⟨upd.change, hupd, hbeaten⟩
          · exact .inr ⟨other, hother, hbeats.trans hbeaten⟩
        · exact .inl (List.mem_map_of_mem (h.mem_iff.mpr (.inl ⟨hmem, hbeaten⟩)))
      · exact .inl (List.mem_map_of_mem (h.mem_iff.mpr (.inr (.inr hmem))))
    · rwa [List.mem_singleton.mp hchange]

theorem unbeaten_iff (hnot : ¬ Beats simpleName dns upd.as_type upd.change member.change) :
    (∀ other ∈ set.members, ¬ Beats simpleName dns upd.as_type other.change member.change) ↔
      ∀ other ∈ result.members, ¬ Beats simpleName dns upd.as_type other.change member.change := by
  constructor
  · intro hall other hother
    obtain ⟨hother, _⟩ | ⟨rfl, hflag⟩ | hother := h.mem_iff.mp hother
    · exact hall other (h.mem_of_before hother)
    · rwa [h.placed.change hflag]
    · exact hall other (h.mem_of_after hother)
  · intro hall other hother hbeats
    obtain hleft | ⟨change, hleft, hbeaten⟩ := h.covers.beaten other.change (List.mem_append_left _ (List.mem_map_of_mem hother))
    · obtain ⟨left, hleft, heq⟩ := List.mem_map.mp hleft
      exact hall left hleft (heq ▸ hbeats)
    · obtain ⟨left, hmem, rfl⟩ := List.mem_map.mp hleft
      exact hall left hmem (hbeaten.trans hbeats)

theorem kept_result (hkept : Kept simpleName dns upd.as_type set) : Kept simpleName dns upd.as_type result where
  ds_type := h.ds_type
  dm_type member hmem := by
    obtain ⟨hmem, _⟩ | ⟨rfl, _⟩ | hmem := h.mem_iff.mp hmem
    · exact hkept.dm_type member (h.mem_of_before hmem)
    · exact h.placed.dm_type
    · exact hkept.dm_type member (h.mem_of_after hmem)
  dm_flag member hmem := by
    obtain ⟨hmem, _⟩ | ⟨rfl, hflag⟩ | hmem := h.mem_iff.mp hmem
    · exact hkept.dm_flag member (h.mem_of_before hmem)
    · exact hflag
    · exact hkept.dm_flag member (h.mem_of_after hmem)
  sorted := by
    have hsorted := hkept.sorted
    rw [← h.members] at hsorted
    obtain ⟨hbefore, hafter, hbetween⟩ := List.pairwise_append.mp hsorted
    rw [h.kept]
    refine List.pairwise_append.mpr ⟨hbefore.filter _, ?_, fun member hmem later hlater => ?_⟩
    · split
      · exact hafter
      · refine List.pairwise_cons.mpr ⟨fun later hlater => ?_, hafter⟩
        rw [h.placed.dm_ts]
        exact h.later later hlater
    · have hmem := (List.mem_filter.mp hmem).1
      split at hlater
      · exact hbetween member hmem later hlater
      · obtain rfl | hlater := List.mem_cons.mp hlater
        · rw [h.placed.dm_ts]
          exact h.earlier member hmem
        · exact hbetween member hmem later hlater
  last := by
    obtain ⟨last, hlast, hts, hflag⟩ := hkept.last
    obtain ⟨rfl, hds_ts, hds_flag⟩ | ⟨hne, hds_ts, hds_flag⟩ := h.state
    · have hunmarked : new.dm_flag ≠ .DM_remove := fun hremoved => by
        obtain ⟨member, hmem, _⟩ := h.placed.removed hremoved
        exact absurd hmem List.not_mem_nil
      refine ⟨new, by simp [h.kept, hunmarked], by rw [hds_ts, h.placed.dm_ts], ?_⟩
      rw [hds_flag, h.placed.dm_flag hunmarked, flag_eq_absent, h.placed.value]
      cases upd.ud_operation <;> simp [or_iff_not_imp_left]
    · refine ⟨last, ?_, by rw [hds_ts, hts], by rw [hds_flag, hflag]⟩
      rw [← h.members, List.getLast?_append_of_ne_nil _ hne] at hlast
      rw [h.kept]
      split
      · rwa [List.getLast?_append_of_ne_nil _ hne]
      · rwa [List.append_cons, List.getLast?_append_of_ne_nil _ hne]
  valid member hmem := by
    obtain ⟨hmem, hnot⟩ | ⟨rfl, hflag⟩ | hmem := h.mem_iff.mp hmem
    · rw [hkept.valid member (h.mem_of_before hmem), h.unbeaten_iff hnot]
    · rw [h.placed.valid hflag, h.placed.dm_flag hflag, flag_eq_present, h.placed.change hflag]
      refine and_congr_right fun _ => ⟨fun hall other hother hbeats => ?_, fun hall other hother => hall other (h.mem_iff.mpr (.inr (.inr hother)))⟩
      obtain ⟨hother, _⟩ | ⟨rfl, _⟩ | hother := h.mem_iff.mp hother
      · exact absurd hbeats.1 (not_lt.mpr (h.earlier other hother).le)
      · exact absurd hbeats.1 (by rw [h.placed.change hflag]; exact lt_irrefl _)
      · exact hall other hother hbeats
    · have hnot : ¬ Beats simpleName dns upd.as_type upd.change member.change := fun hbeats =>
        absurd hbeats.1 (not_lt.mpr (h.later member hmem).le)
      rw [hkept.valid member (h.mem_of_after hmem), h.unbeaten_iff hnot]

end Inserted

theorem set_insert_member_spec (hkept : Kept simpleName dns upd.as_type set)
    (hdistinct : ∀ member ∈ set.members, member.dm_ts = upd.ud_timestamp → member.change = upd.change)
    (hlater : ¬ MissesLater simpleName dns set upd) :
    Kept simpleName dns upd.as_type (set_insert_member simpleName set upd dns) ∧
      Covers (Beats simpleName dns upd.as_type) (set_insert_member simpleName set upd dns).changes (set.changes ++ [upd.change]) := by
  by_cases hmem : upd.change ∈ set.changes
  · have hsame : set_insert_member simpleName set upd dns = set := by
      rw [set_insert_member]
      exact if_pos ((haveUpdate_iff hkept hdistinct).mpr hmem)
    rw [hsame]
    refine ⟨hkept, fun change hchange => List.mem_append_left _ hchange, fun change hchange => .inl ?_⟩
    obtain hchange | hchange := List.mem_append.mp hchange
    · exact hchange
    · rwa [List.mem_singleton.mp hchange]
  · obtain ⟨_, _, _, hinserted⟩ := set_insert_member_inserted hkept hdistinct hlater hmem
    exact ⟨hinserted.kept_result hkept, hinserted.covers⟩

theorem kept_set_member (hpresent : upd.as_type = .AT_single ∨ upd.ud_operation = .UD_present) :
    Kept simpleName dns upd.as_type (set_member upd) where
  ds_type := rfl
  dm_type member hmem := by
    rw [List.mem_singleton.mp hmem]
    rfl
  dm_flag member hmem := by
    rw [List.mem_singleton.mp hmem]
    exact flag_ne_remove _
  sorted := List.pairwise_singleton _ _
  last := by
    refine ⟨_, rfl, rfl, ?_⟩
    obtain hsingle | hpresent := hpresent
    · cases h : upd.ud_operation <;> simp [set_member, Update_t.member, UD.flag, hsingle, h]
    · simp [set_member, Update_t.member, UD.flag, hpresent]
  valid member hmem := by
    rw [List.mem_singleton.mp hmem]
    refine Iff.trans ?_ (and_iff_left fun other hother hbeats => ?_).symm
    · simp [Update_t.member, flag_eq_present]
    · rw [List.mem_singleton.mp hother] at hbeats
      exact absurd hbeats.1 (lt_irrefl _)

theorem changes_set_member : (set_member upd).changes = [upd.change] := by
  simp [DBSet_t.changes, set_member, Update_t.member, DBSetMember_t.change, Update_t.change, flag_eq_present]

theorem Kept.stamp_le (hkept : Kept simpleName dns type set) {member : DBSetMember_t} (hmem : member ∈ set.members) :
    member.dm_ts.stamp ≤ set.ds_ts.stamp := by
  obtain ⟨last, hlast, hts, _⟩ := hkept.last
  obtain ⟨front, heq⟩ := List.getLast?_eq_some_iff.mp hlast
  have hsorted := hkept.sorted
  rw [heq] at hsorted hmem
  rw [hts]
  obtain hmem | hmem := List.mem_append.mp hmem
  · exact ((List.pairwise_append.mp hsorted).2.2 member hmem last List.mem_cons_self).le
  · rw [List.mem_singleton.mp hmem]

theorem covers_set_member (hkept : Kept simpleName dns upd.as_type set) (hsingle : upd.as_type = .AT_single)
    (hdistinct : ∀ member ∈ set.members, member.dm_ts = upd.ud_timestamp → member.change = upd.change)
    (hle : set.ds_ts.stamp ≤ upd.ud_timestamp.stamp) :
    Covers (Beats simpleName dns upd.as_type) (set_member upd).changes (set.changes ++ [upd.change]) := by
  rw [changes_set_member]
  refine ⟨fun change hchange => List.mem_append_right _ hchange, fun change hchange => ?_⟩
  obtain hchange | hchange := List.mem_append.mp hchange
  · obtain ⟨member, hmem, rfl⟩ := List.mem_map.mp hchange
    obtain hlt | heq := lt_or_eq_of_le ((hkept.stamp_le hmem).trans hle)
    · exact .inr ⟨upd.change, List.mem_cons_self, hlt, .inl hsingle⟩
    · exact .inl (by rw [hdistinct member hmem (stamp_inj.mp heq)]; exact List.mem_cons_self)
  · exact .inl hchange

theorem covers_same (hkept : Kept simpleName dns upd.as_type set) (hsingle : upd.as_type = .AT_single)
    (hdistinct : ∀ member ∈ set.members, member.dm_ts = upd.ud_timestamp → member.change = upd.change)
    (hle : upd.ud_timestamp.stamp ≤ set.ds_ts.stamp) :
    Covers (Beats simpleName dns upd.as_type) set.changes (set.changes ++ [upd.change]) := by
  refine ⟨fun change hchange => List.mem_append_left _ hchange, fun change hchange => ?_⟩
  obtain hchange | hchange := List.mem_append.mp hchange
  · exact .inl hchange
  · obtain rfl := List.mem_singleton.mp hchange
    obtain ⟨last, hlast, hts, _⟩ := hkept.last
    have hmem := List.mem_of_getLast? hlast
    rw [hts] at hle
    obtain hlt | heq := lt_or_eq_of_le hle
    · exact .inr ⟨last.change, List.mem_map_of_mem hmem, hlt, .inl hsingle⟩
    · exact .inl (hdistinct last hmem (stamp_inj.mp heq.symm) ▸ List.mem_map_of_mem hmem)

end dce.cds
