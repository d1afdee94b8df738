import Dce.Cds.SetMembers

open lib

namespace dce.cds

/-- The attributes: those that are known, and for each one whether it has a single value or a set. -/
structure Schema where
  descriptor : AttributeName_t → Option attribute_descriptor_t
  type : AttributeName_t → AT
  known : ∀ name dns, descriptor name = some dns → dns.type = type name

/-- What does not change while updates are applied. -/
structure Server where
  schema : Schema
  kind : Kind
  change_allowed : Bool
  simpleName : List Byte → List Byte
  asTimestamp : Option AttributeValue → Timestamp_t

variable (server : Server)

/-- `set_insert`, called for an update. -/
def Server.insert (sets : Sets) (upd : Update_t) : Sets :=
  (set_insert server.simpleName server.asTimestamp server.kind sets upd (server.schema.descriptor upd.as_name) server.change_allowed).1

def Server.insertAll : Sets → List Update_t → Sets
  | sets, [] => sets
  | sets, upd :: updates => Server.insertAll (server.insert sets upd) updates

def changesOf : Option DBSet_t → List Change
  | some set => set.changes
  | none => []

def changesTo (name : AttributeName_t) (updates : List Update_t) : List Change :=
  (updates.filter (·.as_name = name)).map Update_t.change

def Record (sets : Sets) : Prop :=
  ∀ name set, sets name = some set → Kept server.simpleName (server.schema.descriptor name) (server.schema.type name) set

/-- Updates of the attributes' types, whose time stamps tell them from each other and from those that the record tells of. -/
structure Stamped (sets : Sets) (updates : List Update_t) : Prop where
  typed : ∀ upd ∈ updates, upd.as_type = server.schema.type upd.as_name
  distinct : ∀ upd ∈ updates, ∀ other ∈ updates, upd.ud_timestamp = other.ud_timestamp → upd = other
  fresh : ∀ upd ∈ updates, ∀ change ∈ changesOf (sets upd.as_name), change.ts = upd.ud_timestamp → change = upd.change

/-- The update meets none of the places where time stamps are passed over: an absent value is not kept if the record does not have
the attribute, a value older than all members of its set is not compared with them, and the value of an attribute that each replica
keeps for itself is replaced in any case, or kept if it is greater as a time. -/
structure Sound (sets : Sets) (upd : Update_t) : Prop where
  known : sets upd.as_name = none → upd.ud_operation = .UD_present
  compared : ∀ set, sets upd.as_name = some set →
    ¬ MissesLater server.simpleName (server.schema.descriptor upd.as_name) set upd
  replica : ∀ dns set, server.schema.descriptor upd.as_name = some dns → dns.rep_rec = true → upd.as_type = .AT_single →
    sets upd.as_name = some set → set.ds_ts.stamp ≤ upd.ud_timestamp.stamp ∧ ¬ (dns.atype = .DNS_LASTUPDATE ∧
      0 < dnsCmpCTS (server.asTimestamp (set.members.head?.bind (·.value))) (server.asTimestamp upd.value))

/-- Every update of a run is sound where it is applied. -/
def SoundAll : Sets → List Update_t → Prop
  | _, [] => True
  | sets, upd :: updates => Sound server sets upd ∧ SoundAll (server.insert sets upd) updates

@[simp] theorem put_self (sets : Sets) (name : AttributeName_t) (set : DBSet_t) : sets.put name set name = some set := if_pos rfl

theorem put_of_ne (sets : Sets) {name other : AttributeName_t} (set : DBSet_t) (hne : other ≠ name) :
    sets.put name set other = sets other := if_neg hne

variable {server} {sets : Sets} {upd : Update_t}

/-- The attribute after a sound update: its set is kept, and tells of what it told of and of the update. -/
def Told (server : Server) (sets : Sets) (upd : Update_t) (result : Sets) : Prop :=
  (∀ name, name ≠ upd.as_name → result name = sets name) ∧ ∃ set, result upd.as_name = some set ∧
    Kept server.simpleName (server.schema.descriptor upd.as_name) upd.as_type set ∧
    Covers (Beats server.simpleName (server.schema.descriptor upd.as_name) upd.as_type) set.changes
      (changesOf (sets upd.as_name) ++ [upd.change])

theorem told_put {set : DBSet_t}
    (hkept : Kept server.simpleName (server.schema.descriptor upd.as_name) upd.as_type set)
    (hcovers : Covers (Beats server.simpleName (server.schema.descriptor upd.as_name) upd.as_type) set.changes
      (changesOf (sets upd.as_name) ++ [upd.change])) : Told server sets upd (sets.put upd.as_name set) :=
  ⟨fun _ hne => put_of_ne sets set hne, set, put_self sets upd.as_name set, hkept, hcovers⟩

theorem told_new (hnone : sets upd.as_name = none) (hpresent : upd.ud_operation = .UD_present) :
    Told server sets upd (sets.put upd.as_name (set_new upd)) := by
  refine told_put (kept_set_member (.inr hpresent)) ?_
  rw [hnone, set_new, changes_set_member]
  exact Covers.refl _

section

variable (hrecord : Record server sets)

include hrecord

section

variable (htyped : upd.as_type = server.schema.type upd.as_name)
  (hfresh : ∀ change ∈ changesOf (sets upd.as_name), change.ts = upd.ud_timestamp → change = upd.change)

include htyped hfresh

theorem told_replace (hsound : Sound server sets upd)
    (hsingle : upd.as_type = .AT_single) {dns : attribute_descriptor_t} (hdns : server.schema.descriptor upd.as_name = some dns) :
    ∃ set, set_replace_value server.asTimestamp (sets upd.as_name) upd dns = some set ∧ Told server sets upd (sets.put upd.as_name set) := by
  cases hfound : sets upd.as_name with
  | none =>
    have hpresent := hsound.known hfound
    exact ⟨set_new upd, by rw [set_replace_value, if_pos hpresent], told_new hfound hpresent⟩
  | some set =>
    have hkept := hrecord upd.as_name set hfound
    rw [← htyped] at hkept
    have hdistinct (member) (hmem : member ∈ set.members) : member.dm_ts = upd.ud_timestamp → member.change = upd.change :=
      hfresh member.change (by rw [hfound]; exact List.mem_map_of_mem hmem)
    have hnewer (hle : set.ds_ts.stamp ≤ upd.ud_timestamp.stamp) : Told server sets upd (sets.put upd.as_name (set_member upd)) :=
      told_put (kept_set_member (.inl hsingle)) (by rw [hfound]; exact covers_set_member hkept hsingle hdistinct hle)
    have holder (hle : upd.ud_timestamp.stamp ≤ set.ds_ts.stamp) : Told server sets upd (sets.put upd.as_name set) :=
      told_put hkept (by rw [hfound]; exact covers_same hkept hsingle hdistinct hle)
    rw [set_replace_value]
    cases hrep : dns.rep_rec with
    | false =>
      by_cases hcmp : 0 ≤ dnsCmpCTS set.ds_ts upd.ud_timestamp
      · exact ⟨set, by simp [hcmp], holder (dnsCmpCTS_nonneg.mp hcmp)⟩
      · exact ⟨set_member upd, by simp [hcmp], hnewer (not_le.mp (dnsCmpCTS_nonneg.not.mp hcmp)).le⟩
    | true =>
      obtain ⟨hle, hnot⟩ := hsound.replica dns set hdns hrep hsingle hfound
      refine ⟨set_member upd, ?_, hnewer hle⟩
      simp only [Bool.not_true, Bool.false_eq_true, if_false, if_neg hnot]

theorem told_insertKnown (hsound : Sound server sets upd) :
    Told server sets upd (set_insert.insertKnown server.simpleName sets upd (server.schema.descriptor upd.as_name) server.change_allowed).1 := by
  rw [set_insert.insertKnown]
  cases hfound : sets upd.as_name with
  | none =>
    have hpresent := hsound.known hfound
    simp only [hpresent, ne_eq, not_true_eq_false, if_false]
    exact told_new hfound hpresent
  | some set =>
    have hkept := hrecord upd.as_name set hfound
    rw [← htyped] at hkept
    have hdistinct (member) (hmem : member ∈ set.members) : member.dm_ts = upd.ud_timestamp → member.change = upd.change :=
      hfresh member.change (by rw [hfound]; exact List.mem_map_of_mem hmem)
    obtain ⟨hkept', hcovers⟩ := set_insert_member_spec hkept hdistinct (hsound.compared set hfound)
    simp only [hkept.ds_type, ne_eq, not_true_eq_false, false_and, if_false]
    exact told_put hkept' (by rw [hfound]; exact hcovers)

theorem told_insert (hsound : Sound server sets upd) :
    Told server sets upd (server.insert sets upd) := by
  have hknown := told_insertKnown hrecord htyped hfresh hsound
  rw [Server.insert, set_insert.eq_def]
  cases hdns : server.schema.descriptor upd.as_name with
  | none =>
    rw [hdns] at hknown
    exact hknown
  | some dns =>
    rw [hdns] at hknown
    have htype : ¬ upd.as_type ≠ dns.type := by simp [htyped, server.schema.known _ _ hdns]
    simp only [if_neg htype]
    split
    · rename_i hreplaces
      obtain ⟨set, hset, htold⟩ := told_replace hrecord htyped hfresh hsound hreplaces.1 hdns
      rw [hset]
      exact htold
    · exact hknown

end

theorem visible_iff_content (name : AttributeName_t) (value : AttributeValue) : visible (sets name) value ↔
      content server.simpleName (server.schema.descriptor name) (server.schema.type name) (changesOf (sets name)) value := by
  cases hfound : sets name with
  | none =>
    refine iff_of_false ?_ ?_
    · rintro ⟨set, hset, _⟩
      cases hset
    · rintro ⟨change, hunbeaten, _⟩
      exact absurd hunbeaten.mem List.not_mem_nil
  | some set =>
    have hkept := hrecord name set hfound
    constructor
    · rintro ⟨s, hs, _, member, hmem, hvalid, hvalue⟩
      obtain rfl := Option.some.inj hs
      obtain ⟨hpresent, hunbeaten⟩ := (hkept.valid member hmem).mp hvalid
      refine ⟨member.change, ⟨List.mem_map_of_mem hmem, fun change hchange => ?_⟩, by simp [DBSetMember_t.change, hpresent], hvalue⟩
      obtain ⟨other, hother, rfl⟩ := List.mem_map.mp hchange
      exact hunbeaten other hother
    · rintro ⟨change, hunbeaten, hpresent, hvalue⟩
      obtain ⟨member, hmem, rfl⟩ := List.mem_map.mp hunbeaten.mem
      have hflag : member.dm_flag = .DM_present := of_decide_eq_true hpresent
      refine ⟨set, rfl, ?_, member, hmem, (hkept.valid member hmem).mpr
        ⟨hflag, fun other hother => hunbeaten.unbeaten other.change (List.mem_map_of_mem hother)⟩, hvalue⟩
      -- a set that is absent ends with an update that beats all others
      by_contra habsent
      obtain ⟨last, hlast, hts, hds⟩ := hkept.last
      obtain ⟨hlastAbsent, hwhy⟩ := hds.mp (by simpa using habsent)
      have hlastMem := List.mem_of_getLast? hlast
      have hne : member ≠ last := fun heq => by
        rw [heq, hlastAbsent] at hflag
        cases hflag
      have holder : member.dm_ts.stamp < last.dm_ts.stamp := by
        obtain ⟨front, heq⟩ := List.getLast?_eq_some_iff.mp hlast
        have hsorted := hkept.sorted
        rw [heq] at hsorted hmem
        obtain hmem | hmem := List.mem_append.mp hmem
        · exact (List.pairwise_append.mp hsorted).2.2 member hmem last List.mem_cons_self
        · exact absurd (List.mem_singleton.mp hmem) hne
      refine hunbeaten.unbeaten last.change (List.mem_map_of_mem hlastMem) ⟨holder, ?_⟩
      exact hwhy.imp_right fun hnone => .inl (by simp [Change.clears, DBSetMember_t.change, hlastAbsent, hnone])

theorem Told.record (htyped : upd.as_type = server.schema.type upd.as_name) {result : Sets}
    (htold : Told server sets upd result) : Record server result := by
  obtain ⟨hother, set, hset, hkept, _⟩ := htold
  intro name s hs
  by_cases hname : name = upd.as_name
  · subst hname
    obtain rfl := Option.some.inj (hset.symm.trans hs)
    rwa [← htyped]
  · exact hrecord name s ((hother name hname).symm.trans hs)

end

theorem Told.stamped {updates : List Update_t} (hstamped : Stamped server sets (upd :: updates)) {result : Sets}
    (htold : Told server sets upd result) : Stamped server result updates where
  typed other hother := hstamped.typed other (List.mem_cons_of_mem _ hother)
  distinct other hother third hthird := hstamped.distinct other (List.mem_cons_of_mem _ hother) third (List.mem_cons_of_mem _ hthird)
  fresh other hother change hchange hts := by
    have hmem := List.mem_cons_of_mem upd hother
    obtain ⟨hsame, set, hset, _, hcovers⟩ := htold
    by_cases hname : other.as_name = upd.as_name
    · rw [hname, hset] at hchange
      obtain hchange | hchange := List.mem_append.mp (hcovers.subset change hchange)
      · exact hstamped.fresh other hmem change (by rwa [hname]) hts
      · obtain rfl := List.mem_singleton.mp hchange
        rw [hstamped.distinct upd List.mem_cons_self other hmem hts]
    · rw [hsame other.as_name hname] at hchange
      exact hstamped.fresh other hmem change hchange hts

theorem insertAll_spec {updates : List Update_t} (hrecord : Record server sets) (hstamped : Stamped server sets updates)
    (hsound : SoundAll server sets updates) : Record server (server.insertAll sets updates) ∧
      ∀ name, Covers (Beats server.simpleName (server.schema.descriptor name) (server.schema.type name))
        (changesOf (server.insertAll sets updates name)) (changesOf (sets name) ++ changesTo name updates) := by
  induction updates generalizing sets with
  | nil =>
    refine ⟨hrecord, fun name => ?_⟩
    rw [changesTo, List.filter_nil, List.map_nil, List.append_nil]
    exact Covers.refl _
  | cons upd updates ih =>
    have htyped := hstamped.typed upd List.mem_cons_self
    have htold := told_insert hrecord htyped (hstamped.fresh upd List.mem_cons_self) hsound.1
    obtain ⟨hrecord', hcovers⟩ := ih (htold.record hrecord htyped) (htold.stamped hstamped) hsound.2
    refine ⟨hrecord', fun name => ?_⟩
    obtain ⟨hother, set, hset, _, hstep⟩ := htold
    rw [Server.insertAll]
    by_cases hname : upd.as_name = name
    · subst hname
      have hto : changesTo upd.as_name (upd :: updates) = [upd.change] ++ changesTo upd.as_name updates := by
        simp [changesTo]
      rw [hto, ← List.append_assoc]
      have hall := hcovers upd.as_name
      rw [hset] at hall
      rw [← htyped] at hall ⊢
      exact hall.trans (fun hab hbc => hab.trans hbc) (hstep.append _)
    · have hto : changesTo name (upd :: updates) = changesTo name updates := by simp [changesTo, hname]
      rw [hto, ← hother name (Ne.symm hname)]
      exact hcovers name

theorem content_congr {simpleName : List Byte → List Byte} {dns : Option attribute_descriptor_t} {type : AT} {history history' : List Change}
    (hmem : ∀ change, change ∈ history ↔ change ∈ history') (value : AttributeValue) :
    content simpleName dns type history value ↔ content simpleName dns type history' value := by
  refine exists_congr fun change => and_congr_left fun _ => ?_
  exact ⟨fun h => ⟨(hmem change).mp h.mem, fun b hb => h.unbeaten b ((hmem b).mpr hb)⟩,
    fun h => ⟨(hmem change).mpr h.mem, fun b hb => h.unbeaten b ((hmem b).mp hb)⟩⟩

/-- Updates applied in any order, with any of them repeated, give the content that their time stamps tell, if each is sound where it
is applied. -/
theorem set_insert_converges (hrecord : Record server sets) {updates : List Update_t} (hstamped : Stamped server sets updates)
    (order : List Update_t) (horder : ∀ upd, upd ∈ order ↔ upd ∈ updates) (hsound : SoundAll server sets order)
    (name : AttributeName_t) (value : AttributeValue) : visible (server.insertAll sets order name) value ↔
      content server.simpleName (server.schema.descriptor name) (server.schema.type name)
        (changesOf (sets name) ++ changesTo name updates) value := by
  have hstamped' : Stamped server sets order :=
    ⟨fun upd hmem => hstamped.typed upd ((horder upd).mp hmem),
      fun upd hmem other hother => hstamped.distinct upd ((horder upd).mp hmem) other ((horder other).mp hother),
      fun upd hmem => hstamped.fresh upd ((horder upd).mp hmem)⟩
  obtain ⟨hrecord', hcovers⟩ := insertAll_spec hrecord hstamped' hsound
  rw [visible_iff_content hrecord']
  have hall : content server.simpleName (server.schema.descriptor name) (server.schema.type name)
      (changesOf (server.insertAll sets order name)) value ↔
      content server.simpleName (server.schema.descriptor name) (server.schema.type name)
        (changesOf (sets name) ++ changesTo name order) value :=
    exists_congr fun change => and_congr_left fun _ => (hcovers name).unbeaten_iff fun hab hbc => hab.trans hbc
  rw [hall]
  refine content_congr (fun change => ?_) value
  simp [changesTo, horder]

def plainServer : Server where
  schema := ⟨fun _ => none, fun _ => .AT_set, fun _ _ h => by simp at h⟩
  kind := ⟨false⟩
  change_allowed := true
  simpleName := id
  asTimestamp _ := ⟨0, 0⟩

def addition : Update_t := ⟨⟨1, 0⟩, .UD_present, .AT_set, [1], some (.byte [7])⟩
def removal : Update_t := ⟨⟨2, 0⟩, .UD_absent, .AT_set, [1], some (.byte [7])⟩

theorem stamped_addition_removal : Stamped plainServer (fun _ => none) [addition, removal] where
  typed upd hmem := by
    obtain rfl | hmem := List.mem_cons.mp hmem
    · rfl
    · rw [List.mem_singleton.mp hmem]
      rfl
  distinct := by decide
  fresh _ _ _ hchange := absurd hchange List.not_mem_nil

theorem set_insert_converges_addition_removal : visible (plainServer.insertAll (fun _ => none) [addition, removal, removal] [1]) (.byte [7]) ↔
    content id none .AT_set (changesOf none ++ changesTo [1] [addition, removal]) (.byte [7]) := by
  refine set_insert_converges (fun _ _ h => by simp at h) stamped_addition_removal
    [addition, removal, removal] (by simp) ⟨⟨fun _ => rfl, fun _ h => by simp at h, fun _ _ h => by simp [plainServer] at h⟩, ?_, ?_, trivial⟩
    [1] (.byte [7])
  · exact ⟨fun h => absurd h (by decide +kernel), fun _ _ h => absurd h.present (by decide), fun _ _ h => by simp [plainServer] at h⟩
  · exact ⟨fun h => absurd h (by decide +kernel), fun _ _ h => absurd h.present (by decide), fun _ _ h => by simp [plainServer] at h⟩

/-- An addition sent again after the removal brings the value back. -/
theorem removed_value_returns :
    ¬ ∀ (server : Server) (sets : Sets), Record server sets → ∀ updates, Stamped server sets updates →
      ∀ order : List Update_t, (∀ upd, upd ∈ order ↔ upd ∈ updates) → ∀ name value,
        visible (server.insertAll sets order name) value ↔
          content server.simpleName (server.schema.descriptor name) (server.schema.type name)
            (changesOf (sets name) ++ changesTo name updates) value := by
  intro h
  have hiff := h plainServer (fun _ => none) (fun _ _ h => by simp at h) [addition, removal] stamped_addition_removal
    [addition, removal, addition] (by simp [or_comm]) [1] (.byte [7])
  have hset : plainServer.insertAll (fun _ => none) [addition, removal, addition] [1] =
      some ⟨true, .AT_set, ⟨2, 0⟩, [⟨.DM_present, .AT_set, true, ⟨1, 0⟩, some (.byte [7])⟩,
        ⟨.DM_absent, .AT_set, false, ⟨2, 0⟩, some (.byte [7])⟩]⟩ := by decide +kernel
  obtain ⟨change, hunbeaten, hpresent, _⟩ := hiff.mp ⟨_, hset, rfl, _, List.mem_cons_self, rfl, rfl⟩
  have hbeaten : Beats id none .AT_set removal.change addition.change :=
    ⟨by decide, .inr (.inr ⟨_, rfl, _, rfl, rfl⟩)⟩
  have hmem : change = addition.change ∨ change = removal.change := by
    simpa [changesOf, changesTo, addition, removal] using hunbeaten.mem
  obtain rfl | rfl := hmem
  · exact hunbeaten.unbeaten removal.change (by simp [changesOf, changesTo, removal, addition]) hbeaten
  · simp [Update_t.change, removal] at hpresent

end dce.cds
