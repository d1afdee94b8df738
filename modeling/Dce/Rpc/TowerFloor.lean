import Dce.Lib.ByteOrder
import Dce.Sec.AclEval

open lib dce.sec

set_option linter.style.nameCheck false

namespace dce.rpc

/-- The statuses of the tower routines, and `undefined` where the C code has no meaning: it reads past the end
of a string, writes past the end of a variable or follows a null pointer. -/
inductive tower_status_t where
  | undefined
  | uuid_s_bad_version
  | rpc_s_protseq_not_supported
  | rpc_s_invalid_rpc_protid
  | rpc_s_not_rpc_tower
  | twr_s_unknown_sa
  | twr_s_unknown_tower
  deriving DecidableEq, Repr

inductive rpc_protseq_id_t where
  | NCACN_IP_TCP
  | NCACN_DNET_NSP
  | NCACN_OSI_DNA
  | NCADG_IP_UDP
  | NCADG_DDS
  deriving DecidableEq, Repr

inductive rpc_protocol_id_t where
  | NCACN
  | NCADG
  deriving DecidableEq, Repr

def RPC_C_NAF_ID_IP : BitVec 16 := 2
def RPC_C_NAF_ID_DNET : BitVec 16 := 12
def RPC_C_NAF_ID_DDS : BitVec 16 := 13
def RPC_C_NAF_ID_OSI : BitVec 16 := 19

def RPC_C_NETWORK_PROTOCOL_ID_TCP : BitVec 32 := 6
def RPC_C_NETWORK_PROTOCOL_ID_UDP : BitVec 32 := 17
def RPC_C_NETWORK_PROTOCOL_ID_DDS : BitVec 32 := 0
def RPC_C_NETWORK_PROTOCOL_ID_DNASESSION : BitVec 32 := 9
def RPC_C_NETWORK_PROTOCOL_ID_UNS : BitVec 32 := 0

/-- `rpc_protseq_id_elt_t`: a row of the table of protocol sequences. -/
structure rpc_protseq_id_elt_t where
  rpc_protocol_id : rpc_protocol_id_t
  naf_id : BitVec 16
  network_protocol_id : BitVec 32

def rpc_g_protseq_id : rpc_protseq_id_t → rpc_protseq_id_elt_t
  | .NCACN_IP_TCP => ⟨.NCACN, RPC_C_NAF_ID_IP, RPC_C_NETWORK_PROTOCOL_ID_TCP⟩
  | .NCACN_DNET_NSP => ⟨.NCACN, RPC_C_NAF_ID_DNET, RPC_C_NETWORK_PROTOCOL_ID_UNS⟩
  | .NCACN_OSI_DNA => ⟨.NCACN, RPC_C_NAF_ID_OSI, RPC_C_NETWORK_PROTOCOL_ID_DNASESSION⟩
  | .NCADG_IP_UDP => ⟨.NCADG, RPC_C_NAF_ID_IP, RPC_C_NETWORK_PROTOCOL_ID_UDP⟩
  | .NCADG_DDS => ⟨.NCADG, RPC_C_NAF_ID_DDS, RPC_C_NETWORK_PROTOCOL_ID_DDS⟩

def protseq_ids : List rpc_protseq_id_t := [.NCACN_IP_TCP, .NCACN_DNET_NSP, .NCACN_OSI_DNA, .NCADG_IP_UDP, .NCADG_DDS]

def RPC_C_CN_PROTO_ID : Byte := 0x0B
def RPC_C_CN_PROTO_VERS : BitVec 32 := 5
def RPC_C_CN_PROTO_VERS_MINOR : BitVec 32 := 1
def RPC_C_DG_PROTO_ID : Byte := 0x0A
def RPC_C_DG_PROTO_VERS : BitVec 32 := 4

/-- `network_inq_prot_vers` of the two protocols: the tower protocol identifier and the two versions. -/
def network_inq_prot_vers : rpc_protocol_id_t → Byte × BitVec 32 × BitVec 32
  | .NCACN => (RPC_C_CN_PROTO_ID, RPC_C_CN_PROTO_VERS, RPC_C_CN_PROTO_VERS_MINOR)
  | .NCADG => (RPC_C_DG_PROTO_ID, RPC_C_DG_PROTO_VERS, 0)

/-- `rpc__network_inq_prot_version`. The host supports the protocol sequences of the set. -/
def rpc__network_inq_prot_version (supported : rpc_protseq_id_t → Bool) (rpc_protseq_id : rpc_protseq_id_t) :
    Except tower_status_t (Byte × BitVec 32 × BitVec 32) :=
  if !supported rpc_protseq_id then .error .rpc_s_protseq_not_supported
  else .ok (network_inq_prot_vers (rpc_g_protseq_id rpc_protseq_id).rpc_protocol_id)

structure rpc_if_id_t where
  uuid : uuid_t
  vers_major : BitVec 16
  vers_minor : BitVec 16
  deriving DecidableEq

structure rpc_syntax_id_t where
  id : uuid_t
  version : BitVec 32
  deriving DecidableEq

structure rpc_protocol_version_t where
  major_version : BitVec 32
  minor_version : BitVec 32
  deriving DecidableEq

/-- `rpc_tower_floor_t`. The octet string goes on with whatever follows the floor where it points. -/
structure rpc_tower_floor_t where
  prot_id_count : BitVec 16
  address_count : BitVec 16
  octet_string : List Byte
  deriving DecidableEq

def RPC_C_TOWER_FLR_COUNT_SIZE : ℕ := 2
def RPC_C_TOWER_FLR_LHS_COUNT_SIZE : ℕ := 2
def RPC_C_TOWER_FLR_RHS_COUNT_SIZE : ℕ := 2
def RPC_C_TOWER_VERSION_SIZE : ℕ := 2
def RPC_C_TOWER_PROT_ID_SIZE : ℕ := 1
def RPC_C_TOWER_UUID_SIZE : ℕ := 16
def RPC_C_PROT_ID_PREFIX : Byte := 0x0D

def RPC_PROT_ID_START (floor : rpc_tower_floor_t) : List Byte :=
  floor.octet_string.drop RPC_C_TOWER_FLR_LHS_COUNT_SIZE

def RPC_ADDRESS_COUNT (floor : rpc_tower_floor_t) : List Byte :=
  (RPC_PROT_ID_START floor).drop floor.prot_id_count.toNat

def RPC_ADDRESS_START (floor : rpc_tower_floor_t) : List Byte :=
  (RPC_ADDRESS_COUNT floor).drop RPC_C_TOWER_FLR_RHS_COUNT_SIZE

/-- `memcpy` of so many bytes from a string. -/
def memcpy (size : ℕ) (octets : List Byte) : Except tower_status_t (List Byte) :=
  if size ≤ octets.length then .ok (octets.take size) else .error .undefined

section Host

variable (order : ByteOrder)

def RPC_RESOLVE_ENDIAN_INT16 (field : BitVec 16) : BitVec 16 := order.little16 field

/-- `RPC_RESOLVE_ENDIAN_INT32`, which the tower routines use for the first field of a UUID only. -/
def RPC_RESOLVE_ENDIAN_INT32 (field : BitVec 32) : BitVec 32 := order.little32 field

def RPC_RESOLVE_ENDIAN_UUID (field : uuid_t) : uuid_t :=
  { field with
    time_low := RPC_RESOLVE_ENDIAN_INT32 order field.time_low
    time_mid := RPC_RESOLVE_ENDIAN_INT16 order field.time_mid
    time_hi_and_version := RPC_RESOLVE_ENDIAN_INT16 order field.time_hi_and_version }

def int16_octets (field : BitVec 16) : List Byte := order.store 2 field.toNat

def uuid_octets (uuid : uuid_t) : List Byte :=
  order.store 4 uuid.time_low.toNat ++ order.store 2 uuid.time_mid.toNat ++ order.store 2 uuid.time_hi_and_version.toNat ++
    [uuid.clock_seq_hi_and_reserved, uuid.clock_seq_low] ++ uuid.node.eaddr

/-- `memcpy` to a short integer. -/
def memcpy_int16 (octets : List Byte) : Except tower_status_t (BitVec 16) := do
  let bytes ← memcpy 2 octets
  return BitVec.ofNat 16 (order.load bytes)

/-- `memcpy` to a UUID. -/
def memcpy_uuid (octets : List Byte) : Except tower_status_t uuid_t :=
  if hsize : RPC_C_TOWER_UUID_SIZE ≤ octets.length then
    .ok {
      time_low := BitVec.ofNat 32 (order.load (octets.take 4))
      time_mid := BitVec.ofNat 16 (order.load ((octets.drop 4).take 2))
      time_hi_and_version := BitVec.ofNat 16 (order.load ((octets.drop 6).take 2))
      clock_seq_hi_and_reserved := octets.getD 8 0
      clock_seq_low := octets.getD 9 0
      node := { eaddr := (octets.drop 10).take 6, length := by simp [RPC_C_TOWER_UUID_SIZE] at hsize ⊢; omega } }
  else .error .undefined

/-- `rpc__tower_flr_id_from_uuid`: the protocol identifier of a floor for a UUID. -/
def rpc__tower_flr_id_from_uuid (uuid : uuid_t) (version_major : BitVec 32) : List Byte :=
  let tower_uuid := RPC_RESOLVE_ENDIAN_UUID order uuid
  let tower_vers_major := RPC_RESOLVE_ENDIAN_INT16 order (version_major.setWidth 16)
  RPC_C_PROT_ID_PREFIX :: (uuid_octets order tower_uuid ++ int16_octets order tower_vers_major)

def rpc__tower_flr_from_uuid (uuid : uuid_t) (version_major version_minor : BitVec 32) : rpc_tower_floor_t :=
  let prot_id := rpc__tower_flr_id_from_uuid order uuid version_major
  let prot_id_count := BitVec.ofNat 16 prot_id.length
  let address_count := BitVec.ofNat 16 RPC_C_TOWER_VERSION_SIZE
  let tower_vers_minor := RPC_RESOLVE_ENDIAN_INT16 order (version_minor.setWidth 16)
  { prot_id_count := prot_id_count
    address_count := address_count
    octet_string := int16_octets order (RPC_RESOLVE_ENDIAN_INT16 order prot_id_count) ++ prot_id ++
      int16_octets order (RPC_RESOLVE_ENDIAN_INT16 order address_count) ++ int16_octets order tower_vers_minor }

/-- `rpc__tower_flr_from_drep`: floor 2. -/
def rpc__tower_flr_from_drep (transfer_syntax_id : rpc_syntax_id_t) : rpc_tower_floor_t :=
  rpc__tower_flr_from_uuid order transfer_syntax_id.id (transfer_syntax_id.version &&& 0x0000FFFF) (transfer_syntax_id.version >>> 16)

/-- `rpc__tower_flr_from_if_id`: floor 1. -/
def rpc__tower_flr_from_if_id (if_id : rpc_if_id_t) : rpc_tower_floor_t :=
  rpc__tower_flr_from_uuid order if_id.uuid (if_id.vers_major.setWidth 32) (if_id.vers_minor.setWidth 32)

/-- `rpc__tower_flr_from_rpc_prot_id`: floor 3. -/
def rpc__tower_flr_from_rpc_prot_id (supported : rpc_protseq_id_t → Bool) (rpc_protseq_id : rpc_protseq_id_t)
    (protocol_version : Option rpc_protocol_version_t) : Except tower_status_t rpc_tower_floor_t := do
  let prot_id_count := BitVec.ofNat 16 RPC_C_TOWER_PROT_ID_SIZE
  let address_count := BitVec.ofNat 16 RPC_C_TOWER_VERSION_SIZE
  let (tower_protocol_id, _, version_minor) ← rpc__network_inq_prot_version supported rpc_protseq_id
  -- a minor version that the binding has goes before the one of this runtime
  let tower_vers_minor : BitVec 16 := match protocol_version with
    | some protocol_version => protocol_version.minor_version.setWidth 16
    | none => version_minor.setWidth 16
  return {
    prot_id_count := prot_id_count
    address_count := address_count
    octet_string := int16_octets order (RPC_RESOLVE_ENDIAN_INT16 order prot_id_count) ++ [tower_protocol_id] ++
      int16_octets order (RPC_RESOLVE_ENDIAN_INT16 order address_count) ++
      int16_octets order (RPC_RESOLVE_ENDIAN_INT16 order tower_vers_minor) }

/-- `rpc__tower_flr_id_to_uuid`. The status set for a prefix that is not the one of UUIDs is overwritten. -/
def rpc__tower_flr_id_to_uuid (prot_id : List Byte) : Except tower_status_t (uuid_t × BitVec 32) := do
  let _ ← memcpy RPC_C_TOWER_PROT_ID_SIZE prot_id
  let prot_id := prot_id.drop RPC_C_TOWER_PROT_ID_SIZE
  let uuid ← memcpy_uuid order prot_id
  let prot_id := prot_id.drop RPC_C_TOWER_UUID_SIZE
  let flr_vers_major ← memcpy_int16 order prot_id
  return (RPC_RESOLVE_ENDIAN_UUID order uuid, (RPC_RESOLVE_ENDIAN_INT16 order flr_vers_major).setWidth 32)

/-- The copy of a floor's address to a short integer that has to have its size. -/
def address_int16 (floor : rpc_tower_floor_t) : Except tower_status_t (BitVec 16) :=
  if floor.address_count.toNat = 2 then memcpy_int16 order (RPC_ADDRESS_START floor) else .error .undefined

/-- `rpc__tower_flr_to_uuid`: the UUID and the two versions of a floor. -/
def rpc__tower_flr_to_uuid (floor : rpc_tower_floor_t) : Except tower_status_t (uuid_t × BitVec 32 × BitVec 32) := do
  let (uuid, version_major) ← rpc__tower_flr_id_to_uuid order (RPC_PROT_ID_START floor)
  let flr_vers_minor ← address_int16 order floor
  return (uuid, version_major, (RPC_RESOLVE_ENDIAN_INT16 order flr_vers_minor).setWidth 32)

def rpc__tower_flr_to_drep (floor : rpc_tower_floor_t) : Except tower_status_t rpc_syntax_id_t := do
  let (uuid, version_major, version_minor) ← rpc__tower_flr_to_uuid order floor
  return { id := uuid, version := version_minor <<< 16 ||| version_major }

def rpc__tower_flr_to_if_id (floor : rpc_tower_floor_t) : Except tower_status_t rpc_if_id_t := do
  let (uuid, version_major, version_minor) ← rpc__tower_flr_to_uuid order floor
  return { uuid := uuid, vers_major := version_major.setWidth 16, vers_minor := version_minor.setWidth 16 }

/-- The loop of `rpc__tower_flr_to_rpc_prot_id` over the protocol sequences: the protocol and the major version of
the first one that the host supports and that has the identifier. -/
def find_rpc_prot_id (supported : rpc_protseq_id_t → Bool) (prot_id : Byte) :
    List rpc_protseq_id_t → Except tower_status_t (rpc_protocol_id_t × BitVec 32)
  | [] => .error .rpc_s_invalid_rpc_protid
  | protseq_id :: rest =>
    match rpc__network_inq_prot_version supported protseq_id with
    | .error .rpc_s_protseq_not_supported => find_rpc_prot_id supported prot_id rest
    | .error status => .error status
    | .ok (network_prot_id, version_major, _) =>
      if prot_id = network_prot_id then .ok ((rpc_g_protseq_id protseq_id).rpc_protocol_id, version_major)
      else find_rpc_prot_id supported prot_id rest

/-- `rpc__tower_flr_to_rpc_prot_id`: the protocol of a floor and its two versions. -/
def rpc__tower_flr_to_rpc_prot_id (supported : rpc_protseq_id_t → Bool) (floor : rpc_tower_floor_t) :
    Except tower_status_t (rpc_protocol_id_t × BitVec 32 × BitVec 32) := do
  let prot_id ← memcpy RPC_C_TOWER_PROT_ID_SIZE (RPC_PROT_ID_START floor)
  let (rpc_protocol_id, version_major) ← find_rpc_prot_id supported (prot_id.getD 0 0) protseq_ids
  let prot_vers_minor ← address_int16 order floor
  return (rpc_protocol_id, version_major, (RPC_RESOLVE_ENDIAN_INT16 order prot_vers_minor).setWidth 32)

end Host

end dce.rpc
