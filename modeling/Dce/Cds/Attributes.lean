import Dce.Lib.ByteOrder

open lib

namespace dce.cds

/-- `Timestamp_t`. The time is a number of 64 bits in two words; of the bytes of the node the last is compared first. -/
structure Timestamp_t where
  ts_time : BitVec 64
  ts_node : BitVec 48
  deriving DecidableEq

def dnsCmpCTS (cts1 cts2 : Timestamp_t) : ℤ :=
  if cts2.ts_time < cts1.ts_time then 1
  else if cts1.ts_time < cts2.ts_time then -1
  else if cts2.ts_node < cts1.ts_node then 1
  else if cts1.ts_node < cts2.ts_node then -1
  else 0

/-- The types of attributes. -/
inductive AT where
  | AT_single
  | AT_set
  deriving DecidableEq

/-- The operations of updates. -/
inductive UD where
  | UD_present
  | UD_absent
  deriving DecidableEq

/-- The states of a member: those of the update that made it, and `DM_remove`. -/
inductive DM where
  | DM_present
  | DM_absent
  | DM_remove
  deriving DecidableEq

/-- `EXT8(upd_p->ud_operation)` as the flag of a member. -/
def UD.flag : UD → DM
  | .UD_present => .DM_present
  | .UD_absent => .DM_absent

/-- The value types that are compared in their own way; all others are compared byte by byte. -/
inductive VT where
  | VT_uuid
  | VT_GroupMember
  | VT_FullName
  | VT_ParentPointer
  | VT_CHDirectory
  | VT_gdaPointer
  | VT_ReplicaPointer
  | VT_byte
  | VT_DACL
  | other (vtype : Byte)
  deriving DecidableEq

/-- The known attributes that are handled apart from the others. -/
inductive Atype where
  | DNS_CLASS
  | DNS_ALLUPTO
  | DNS_UTS
  | DNS_LASTUPDATE
  | other (atype : ℕ)
  deriving DecidableEq

structure attribute_descriptor_t where
  atype : Atype
  type : AT
  vtype : VT
  ch_rec : Bool
  rep_rec : Bool

/-- A name as `dnsCmpFull` and `dnsCmpSimple` compare it. -/
structure FullName_t where
  fn_root : List Byte
  fn_name : List (List Byte)
  deriving DecidableEq

structure ReplicaPointer_t where
  rp_CHID : List Byte
  rp_addressHint : List Byte
  rp_type : Byte
  rp_CHName : FullName_t
  deriving DecidableEq

/-- A value, with the parts that comparisons look at. -/
inductive AttributeValue where
  | uuid (id : List Byte)
  | GroupMember (gm_isaGroup : Byte) (gm_member : FullName_t)
  | FullName (name : FullName_t)
  | ParentPointer (pp_timeout : List Byte) (pp_myName : FullName_t)
  | CHDirectory (cp_dirID cp_rest : List Byte)
  | gdaPointer (gp_timeout : List Byte) (gp_replica : ReplicaPointer_t)
  | ReplicaPointer (replica : ReplicaPointer_t)
  | byte (data : List Byte)
  | other (vtype : VT) (data : List Byte)
  deriving DecidableEq

/-- `DBSetMember_t`. A member without a value has no data and the value type `VT_none`. -/
structure DBSetMember_t where
  dm_flag : DM
  dm_type : AT
  dm_valid : Bool
  dm_ts : Timestamp_t
  value : Option AttributeValue
  deriving DecidableEq

/-- `DBSet_t` of an attribute. `ds_flag` is `DS_present` or `DSX_absent`. -/
structure DBSet_t where
  ds_flag : Bool
  ds_type : AT
  ds_ts : Timestamp_t
  members : List DBSetMember_t
  deriving DecidableEq

/-- `AttributeName_t`, in neutral case. -/
abbrev AttributeName_t := List Byte

structure Update_t where
  ud_timestamp : Timestamp_t
  ud_operation : UD
  as_type : AT
  as_name : AttributeName_t
  value : Option AttributeValue
  deriving DecidableEq

inductive dns_status_t where
  | DNS_SUCCESS
  | DNS_WRONGATTRIBUTETYPE
  deriving DecidableEq

variable (simpleName : List Byte → List Byte)

/-- The part of a value that `set_valuetest` compares. `simpleName` is what `dnsCmpSimple` compares of a name. -/
def comparedPart (dns : Option attribute_descriptor_t) : AttributeValue → AttributeValue
  | .ParentPointer _ myName => .ParentPointer [] { myName with fn_name := [] }
  | .CHDirectory dirID _ => .CHDirectory dirID []
  | .gdaPointer _ replica => .gdaPointer [] { replica with rp_addressHint := [] }
  | .ReplicaPointer replica => .ReplicaPointer { replica with rp_addressHint := [] }
  | .byte data => .byte (if dns.map (·.atype) = some .DNS_CLASS then simpleName data else data)
  | value => value

/-- The test of `set_valuetest` on one member. -/
def hasValue (dns : Option attribute_descriptor_t) (value : AttributeValue) (member : DBSetMember_t) : Bool :=
  match member.value with
  | some memberValue => comparedPart simpleName dns value = comparedPart simpleName dns memberValue
  | none => false

/-- The member that an update makes, before others are compared with it. -/
def Update_t.member (upd : Update_t) : DBSetMember_t where
  dm_flag := upd.ud_operation.flag
  dm_type := upd.as_type
  dm_valid := false
  dm_ts := upd.ud_timestamp
  value := upd.value

/-- `dm_valid` and `dm_flag` of a member that a later update has made invalid. -/
def DBSetMember_t.remove (member : DBSetMember_t) : DBSetMember_t :=
  { member with dm_valid := false, dm_flag := .DM_remove }

/-- `prevalue_p->dm_valid` of a member just before that of a set update. -/
def invalidateSingle (prevalue : DBSetMember_t) : DBSetMember_t :=
  if prevalue.dm_type = .AT_single then { prevalue with dm_valid := false } else prevalue

def modifyLast (f : DBSetMember_t → DBSetMember_t) : List DBSetMember_t → List DBSetMember_t
  | [] => []
  | [member] => [f member]
  | member :: members => member :: modifyLast f members

/-- The members before and behind the place that `find_ts_position` finds: members are in increasing order of time, and
matches are considered as less. -/
def find_ts_position (members : List DBSetMember_t) (ts : Timestamp_t) : List DBSetMember_t × List DBSetMember_t :=
  (members.takeWhile fun member => 0 ≤ dnsCmpCTS ts member.dm_ts, members.dropWhile fun member => 0 ≤ dnsCmpCTS ts member.dm_ts)

/-- The update is in the set already: the member before its place is the one it made. -/
def haveUpdate (upd : Update_t) (dns : Option attribute_descriptor_t) (before : List DBSetMember_t) : Bool :=
  match before.getLast? with
  | none => false
  | some member =>
    (upd.value.isSome && dns.map (·.vtype) = some .VT_DACL && member.dm_ts = upd.ud_timestamp) ||
      (member.dm_ts = upd.ud_timestamp && member.value.isSome = upd.value.isSome && upd.ud_operation.flag = member.dm_flag &&
        member.dm_type = upd.as_type &&
        match upd.value with
        | none => true
        | some value => hasValue simpleName dns value member)

/-- The update takes the whole attribute away, or sets its only value: nothing before it counts. -/
def overrides (upd : Update_t) : Bool :=
  upd.as_type = .AT_single || (upd.ud_operation ≠ .UD_present && upd.value.isNone)

/-- Previous values are made invalid where the update says so. -/
def invalidatePrevious (upd : Update_t) (dns : Option attribute_descriptor_t) (before : List DBSetMember_t) : List DBSetMember_t :=
  if overrides upd then before.map DBSetMember_t.remove
  else
    (modifyLast invalidateSingle before).map fun member =>
      match upd.value with
      | some value =>
        if hasValue simpleName dns value member then
          if member.dm_type = .AT_set then member.remove else { member with dm_valid := false }
        else member
      | none => member

/-- A set update whose value a later member has is not needed. Later members are looked at only where there is an earlier one. -/
def invalidateNew (upd : Update_t) (dns : Option attribute_descriptor_t) (before after : List DBSetMember_t) : DBSetMember_t :=
  match upd.value with
  | some value =>
    if !overrides upd && !before.isEmpty && after.any (hasValue simpleName dns value) then upd.member.remove else upd.member
  | none => upd.member

/-- A later member takes the whole attribute away, or changes its type. -/
def wipesOut (member : DBSetMember_t) : Bool :=
  member.dm_type ≠ .AT_set || (member.value.isNone && member.dm_flag = .DM_absent)

/-- The validity of the new member, and what the set is then. -/
def determine (set : DBSet_t) (upd : Update_t) (new : DBSetMember_t) (before after : List DBSetMember_t) : DBSet_t :=
  if 0 ≤ dnsCmpCTS upd.ud_timestamp set.ds_ts then
    { ds_ts := upd.ud_timestamp
      ds_type := upd.as_type
      ds_flag := !((upd.as_type = .AT_single || upd.value.isNone) && upd.ud_operation ≠ .UD_present)
      members := before ++ { new with dm_valid := upd.ud_operation = .UD_present } :: after }
  else if upd.as_type = .AT_single ∨ upd.ud_operation = .UD_absent then
    { set with members := before ++ { new with dm_valid := false } :: after }
  else if !set.ds_flag then
    { set with members := before ++ new.remove :: after }
  else
    let new := if after.any wipesOut then new.remove else new
    -- also where the loop has just made it invalid
    { set with members := before ++ { new with dm_valid := true } :: after }

/-- Values marked for removal go, except the last one. -/
def purge : List DBSetMember_t → List DBSetMember_t
  | [] => []
  | [member] => [member]
  | member :: members => if member.dm_flag = .DM_remove then purge members else member :: purge members

def set_insert_member (set : DBSet_t) (upd : Update_t) (dns : Option attribute_descriptor_t) : DBSet_t :=
  let (before, after) := find_ts_position set.members upd.ud_timestamp
  if haveUpdate simpleName upd dns before then set
  else
    let set := determine set upd (invalidateNew simpleName upd dns before after) (invalidatePrevious simpleName upd dns before) after
    { set with members := purge set.members }

/-- `set_member`: a set with one value, or without one. -/
def set_member (upd : Update_t) : DBSet_t where
  ds_flag := !(upd.as_type = .AT_single && upd.ud_operation ≠ .UD_present)
  ds_type := upd.as_type
  ds_ts := upd.ud_timestamp
  members := [{ upd.member with dm_valid := upd.ud_operation = .UD_present }]

def set_new (upd : Update_t) : DBSet_t := set_member upd

/-- A record, `db_data_t`: the set of each attribute that it has. -/
abbrev Sets := AttributeName_t → Option DBSet_t

def Sets.put (sets : Sets) (name : AttributeName_t) (set : DBSet_t) : Sets := fun n => if n = name then some set else sets n

variable (asTimestamp : Option AttributeValue → Timestamp_t)

/-- `set_replace_value`. `asTimestamp` is what stands where a value would, read as a time stamp. -/
def set_replace_value (found : Option DBSet_t) (upd : Update_t) (dns : attribute_descriptor_t) : Option DBSet_t :=
  match found with
  | none => if upd.ud_operation = .UD_present then some (set_new upd) else none
  | some set =>
    if !dns.rep_rec then
      if 0 ≤ dnsCmpCTS set.ds_ts upd.ud_timestamp then some set else some (set_member upd)
    else if dns.atype = .DNS_LASTUPDATE ∧ 0 < dnsCmpCTS (asTimestamp (set.members.head?.bind (·.value))) (asTimestamp upd.value) then
      some set
    else some (set_member upd)

/-- The type of the record, as far as it matters here. -/
structure Kind where
  /-- `ET_clearinghouse`. -/
  clearinghouse : Bool

def replaces (kind : Kind) (dns : attribute_descriptor_t) : Bool :=
  dns.rep_rec || (dns.ch_rec && kind.clearinghouse) || dns.atype = .DNS_ALLUPTO || dns.atype = .DNS_UTS

def set_insert (kind : Kind) (sets : Sets) (upd : Update_t) (dns : Option attribute_descriptor_t) (change_allowed : Bool) :
    Sets × dns_status_t :=
  match dns with
  | some descriptor =>
    if upd.as_type ≠ descriptor.type then (sets, .DNS_WRONGATTRIBUTETYPE)
    else if upd.as_type = .AT_single ∧ replaces kind descriptor then
      match set_replace_value asTimestamp (sets upd.as_name) upd descriptor with
      | some set => (sets.put upd.as_name set, .DNS_SUCCESS)
      | none => (sets, .DNS_SUCCESS)
    else insertKnown
  | none => insertKnown
where
  /-- The part behind the special cases. -/
  insertKnown : Sets × dns_status_t :=
    match sets upd.as_name with
    | none =>
      if upd.ud_operation ≠ .UD_present then (sets, .DNS_SUCCESS) else (sets.put upd.as_name (set_new upd), .DNS_SUCCESS)
    | some set =>
      if set.ds_type ≠ upd.as_type ∧ set.ds_flag ∧ !change_allowed then (sets, .DNS_WRONGATTRIBUTETYPE)
      else (sets.put upd.as_name (set_insert_member simpleName set upd dns), .DNS_SUCCESS)

end dce.cds
