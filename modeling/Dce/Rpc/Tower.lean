import Dce.Rpc.TowerFloor

open lib dce.sec

set_option linter.style.nameCheck false

namespace dce.rpc

structure twr_t where
  tower_length : BitVec 32
  tower_octet_string : List Byte
  deriving DecidableEq

/-- `rpc_tower_ref_t`: the floors, and null pointers for those that are still to be added. -/
structure rpc_tower_ref_t where
  count : BitVec 16
  floor : List (Option rpc_tower_floor_t)
  deriving DecidableEq

/-- `sockaddr_t`. An internet address keeps its port in the first two bytes of the data and its host in the four
after them, both in network order. -/
structure sockaddr_t where
  family : BitVec 16
  data : List Byte
  length : data.length = 14
  deriving DecidableEq

/-- The bytes of `sin_port`. -/
def sockaddr_t.sin_port (sa : sockaddr_t) : List Byte := sa.data.take 2

/-- The bytes of `sin_addr.s_addr`. -/
def sockaddr_t.s_addr (sa : sockaddr_t) : List Byte := (sa.data.drop 2).take 4

structure rpc_addr_t where
  rpc_protseq_id : rpc_protseq_id_t
  sa : sockaddr_t

/-- `rpc_binding_rep_t`, of which the towers need the address and the protocol version, if there is one. -/
structure rpc_binding_rep_t where
  rpc_addr : rpc_addr_t
  protocol_version : Option rpc_protocol_version_t

/-- `rpc_if_rep_t`: an interface specification with its transfer syntaxes. -/
structure rpc_if_rep_t where
  id : uuid_t
  vers : BitVec 32
  syntax_vector : List rpc_syntax_id_t

def RPC_C_NUM_RPC_FLOORS : ℕ := 3
def RPC_C_MIN_NUM_NETWORK_FLOORS : ℕ := 2
def RPC_C_FULL_TOWER_MIN_FLR_COUNT : ℕ := RPC_C_NUM_RPC_FLOORS + RPC_C_MIN_NUM_NETWORK_FLOORS
def TWR_C_FLR_PROT_ID_TCP : Byte := 0x07
def TWR_C_FLR_PROT_ID_UDP : Byte := 0x08
def TWR_C_FLR_PROT_ID_IP : Byte := 0x09
def TWR_C_NUM_IP_LOWER_FLRS : ℕ := 2
def TWR_C_FLR_OVERHEAD : ℕ := 5
def TWR_C_TOWER_FLR_COUNT_SIZE : ℕ := RPC_C_TOWER_FLR_COUNT_SIZE
def TWR_C_TOWER_FLR_LHS_COUNT_SIZE : ℕ := RPC_C_TOWER_FLR_LHS_COUNT_SIZE
def TWR_C_TOWER_FLR_RHS_COUNT_SIZE : ℕ := RPC_C_TOWER_FLR_RHS_COUNT_SIZE
def TWR_C_TOWER_PROT_ID_SIZE : ℕ := RPC_C_TOWER_PROT_ID_SIZE
def TWR_C_IP_PORT_SIZE : ℕ := 2
def TWR_C_IP_ADDR_SIZE : ℕ := 4

/-- `rpc_if_inq_id`: the identifier of an interface, its versions split. -/
def rpc_if_inq_id (if_spec : rpc_if_rep_t) : rpc_if_id_t where
  uuid := if_spec.id
  vers_major := (if_spec.vers &&& 0xffff).setWidth 16
  vers_minor := (if_spec.vers >>> 16).setWidth 16

section Host

variable (order : ByteOrder)

/-- The octets that the loop of `twr_ip_lower_flrs_from_sa` writes for a floor. -/
def ip_floor_octets (protocol_id : Byte) (related_data : List Byte) : List Byte :=
  let id_size := RPC_RESOLVE_ENDIAN_INT16 order (BitVec.ofNat 16 TWR_C_TOWER_PROT_ID_SIZE)
  let twr_rep_16 := RPC_RESOLVE_ENDIAN_INT16 order (BitVec.ofNat 16 related_data.length)
  int16_octets order id_size ++ [protocol_id] ++ int16_octets order twr_rep_16 ++ related_data

/-- `twr_ip_lower_flrs_from_sa`: the two lower floors of an internet address. -/
def twr_ip_lower_flrs_from_sa (trans_prot : BitVec 32) (sa : sockaddr_t) : Except tower_status_t twr_t := do
  let floors : List (Byte × List Byte) ←
    if sa.family = RPC_C_NAF_ID_IP then
      if trans_prot = RPC_C_NETWORK_PROTOCOL_ID_TCP then
        pure [(TWR_C_FLR_PROT_ID_TCP, sa.sin_port), (TWR_C_FLR_PROT_ID_IP, sa.s_addr)]
      else if trans_prot = RPC_C_NETWORK_PROTOCOL_ID_UDP then
        pure [(TWR_C_FLR_PROT_ID_UDP, sa.sin_port), (TWR_C_FLR_PROT_ID_IP, sa.s_addr)]
      else .error .twr_s_unknown_sa
    else .error .twr_s_unknown_sa
  let floor_count := BitVec.ofNat 16 TWR_C_NUM_IP_LOWER_FLRS
  let sizes := floors.map fun floor => TWR_C_FLR_OVERHEAD + floor.2.length
  return {
    tower_length := BitVec.ofNat 32 (TWR_C_TOWER_FLR_COUNT_SIZE + sizes.sum)
    tower_octet_string := int16_octets order (RPC_RESOLVE_ENDIAN_INT16 order floor_count) ++
      floors.flatMap fun floor => ip_floor_octets order floor.1 floor.2 }

/-- The loop of `twr_ip_lower_flrs_to_sa` that skips the upper floors: where the port's floor goes on behind its
protocol identifier. -/
def find_ip_floors : ℕ → List Byte → Except tower_status_t (List Byte)
  | 0, _ => .error .twr_s_unknown_tower
  | count + 1, tower => do
    let id_size := RPC_RESOLVE_ENDIAN_INT16 order (← memcpy_int16 order tower)
    let id ← memcpy TWR_C_TOWER_PROT_ID_SIZE (tower.drop TWR_C_TOWER_FLR_LHS_COUNT_SIZE)
    if id_size.toNat = TWR_C_TOWER_PROT_ID_SIZE ∧ (id = [TWR_C_FLR_PROT_ID_TCP] ∨ id = [TWR_C_FLR_PROT_ID_UDP]) then
      return tower.drop (TWR_C_TOWER_FLR_LHS_COUNT_SIZE + id_size.toNat)
    else
      let addr_size :=
        RPC_RESOLVE_ENDIAN_INT16 order (← memcpy_int16 order (tower.drop (TWR_C_TOWER_FLR_LHS_COUNT_SIZE + id_size.toNat)))
      find_ip_floors count (tower.drop (TWR_C_TOWER_FLR_LHS_COUNT_SIZE + id_size.toNat +
        (TWR_C_TOWER_FLR_RHS_COUNT_SIZE + addr_size.toNat)))

/-- `memcpy` of a floor's address into a socket address, from some byte of its data on. -/
def memcpy_sa (offset : ℕ) (address : List Byte) (sa : sockaddr_t) : Except tower_status_t sockaddr_t :=
  if hfits : offset + address.length ≤ 14 then
    .ok { sa with
      data := sa.data.take offset ++ address ++ sa.data.drop (offset + address.length)
      length := by simp [sa.length]; omega }
  else .error .undefined

def null_sa : sockaddr_t where
  family := RPC_C_NAF_ID_IP
  data := List.replicate 14 0
  length := rfl

/-- `twr_ip_lower_flrs_to_sa`: the internet address of a tower. Nothing sets the status of a tower of no floors. -/
def twr_ip_lower_flrs_to_sa (tower_octet_string : List Byte) : Except tower_status_t sockaddr_t := do
  let floor_count := RPC_RESOLVE_ENDIAN_INT16 order (← memcpy_int16 order tower_octet_string)
  if floor_count.toNat = 0 then .error .undefined
  else
    let tower ← find_ip_floors order floor_count.toNat (tower_octet_string.drop TWR_C_TOWER_FLR_COUNT_SIZE)
    let addr_size := RPC_RESOLVE_ENDIAN_INT16 order (← memcpy_int16 order tower)
    let tower := tower.drop RPC_C_TOWER_FLR_RHS_COUNT_SIZE
    let sa ← memcpy_sa 0 (← memcpy addr_size.toNat tower) null_sa
    let tower := tower.drop addr_size.toNat
    let id_size := RPC_RESOLVE_ENDIAN_INT16 order (← memcpy_int16 order tower)
    let tower := tower.drop TWR_C_TOWER_FLR_LHS_COUNT_SIZE
    let id ← memcpy TWR_C_TOWER_PROT_ID_SIZE tower
    let tower := tower.drop id_size.toNat
    if id_size.toNat ≠ TWR_C_TOWER_PROT_ID_SIZE ∨ id ≠ [TWR_C_FLR_PROT_ID_IP] then .error .twr_s_unknown_tower
    else
      let addr_size := RPC_RESOLVE_ENDIAN_INT16 order (← memcpy_int16 order tower)
      let tower := tower.drop RPC_C_TOWER_FLR_RHS_COUNT_SIZE
      memcpy_sa 2 (← memcpy addr_size.toNat tower) sa

/-- `tower_flrs_from_addr` of the internet address family. -/
def tower_flrs_from_addr (rpc_addr : rpc_addr_t) : Except tower_status_t twr_t :=
  twr_ip_lower_flrs_from_sa order (rpc_g_protseq_id rpc_addr.rpc_protseq_id).network_protocol_id rpc_addr.sa

/-- The loop of `rpc__tower_ref_alloc` over so many floors. -/
def alloc_floors : ℕ → List Byte → Except tower_status_t (List rpc_tower_floor_t)
  | 0, _ => .ok []
  | count + 1, tower_floor => do
    let prot_id_count := RPC_RESOLVE_ENDIAN_INT16 order (← memcpy_int16 order tower_floor)
    let address_count := RPC_RESOLVE_ENDIAN_INT16 order
      (← memcpy_int16 order (tower_floor.drop (RPC_C_TOWER_FLR_LHS_COUNT_SIZE + prot_id_count.toNat)))
    let rest ← alloc_floors count (tower_floor.drop (RPC_C_TOWER_FLR_LHS_COUNT_SIZE + prot_id_count.toNat +
      (RPC_C_TOWER_FLR_RHS_COUNT_SIZE + address_count.toNat)))
    return { prot_id_count := prot_id_count, address_count := address_count, octet_string := tower_floor } :: rest

/-- `rpc__tower_ref_alloc`. The floors before the first one wanted are null pointers. -/
def rpc__tower_ref_alloc (tower_octet_string : List Byte) (num_flrs start_flr : ℕ) : Except tower_status_t rpc_tower_ref_t := do
  let floors ← alloc_floors order (num_flrs - (start_flr - 1)) (tower_octet_string.drop RPC_C_TOWER_FLR_COUNT_SIZE)
  return {
    count := BitVec.ofNat 16 num_flrs
    floor := List.replicate (min (start_flr - 1) num_flrs) none ++ floors.map some }

def rpc__tower_ref_add_floor (floor_number : ℕ) (floor : rpc_tower_floor_t) (tower_ref : rpc_tower_ref_t) : rpc_tower_ref_t :=
  { tower_ref with floor := tower_ref.floor.set (floor_number - 1) (some floor) }

def floor_at : Option rpc_tower_floor_t → Except tower_status_t rpc_tower_floor_t
  | some floor => .ok floor
  | none => .error .undefined

/-- The floors that the pointers of a tower lead to, as many as it counts. -/
def tower_floors (tower_ref : rpc_tower_ref_t) : Except tower_status_t (List rpc_tower_floor_t) :=
  if tower_ref.count.toNat ≤ tower_ref.floor.length then (tower_ref.floor.take tower_ref.count.toNat).mapM floor_at
  else .error .undefined

/-- `rpc__tower_ref_copy`: the copy of a tower has the same floors. -/
def rpc__tower_ref_copy (source_tower : rpc_tower_ref_t) : Except tower_status_t rpc_tower_ref_t := do
  let floors ← tower_floors source_tower
  return { count := source_tower.count, floor := floors.map some }

/-- `rpc__tower_ref_vec_from_binding`: a tower for each transfer syntax of the interface. Of the address families
only the internet's is in the model. -/
def rpc__tower_ref_vec_from_binding (supported : rpc_protseq_id_t → Bool) (if_spec : rpc_if_rep_t)
    (binding_rep : rpc_binding_rep_t) : Except tower_status_t (List rpc_tower_ref_t) := do
  let lower_floors ← tower_flrs_from_addr order binding_rep.rpc_addr
  let lower_flr_count := RPC_RESOLVE_ENDIAN_INT16 order (← memcpy_int16 order lower_floors.tower_octet_string)
  let tower ← rpc__tower_ref_alloc order lower_floors.tower_octet_string
    (RPC_C_NUM_RPC_FLOORS + lower_flr_count.toNat) (RPC_C_NUM_RPC_FLOORS + 1)
  let tower := rpc__tower_ref_add_floor 1 (rpc__tower_flr_from_if_id order (rpc_if_inq_id if_spec)) tower
  match if_spec.syntax_vector with
  -- the code takes the first transfer syntax without a look at their number
  | [] => .error .undefined
  | if_syntax_id :: rest =>
    let tower := rpc__tower_ref_add_floor 2 (rpc__tower_flr_from_drep order if_syntax_id) tower
    let tower_floor ← rpc__tower_flr_from_rpc_prot_id order supported binding_rep.rpc_addr.rpc_protseq_id
      binding_rep.protocol_version
    let tower := rpc__tower_ref_add_floor 3 tower_floor tower
    let copies ← rest.mapM fun if_syntax_id => do
      let tower_copy ← rpc__tower_ref_copy tower
      return rpc__tower_ref_add_floor 2 (rpc__tower_flr_from_drep order if_syntax_id) tower_copy
    return tower :: copies

def rpc_tower_floor_t.size (floor : rpc_tower_floor_t) : ℕ :=
  floor.prot_id_count.toNat + RPC_C_TOWER_FLR_LHS_COUNT_SIZE + floor.address_count.toNat + RPC_C_TOWER_FLR_RHS_COUNT_SIZE

def rpc__tower_from_tower_ref (tower_ref : rpc_tower_ref_t) : Except tower_status_t twr_t := do
  let floors ← tower_floors tower_ref
  let octet_length := floors.foldl (fun octet_length floor => octet_length + BitVec.ofNat 32 floor.size) (0 : BitVec 32)
  let octets ← floors.mapM fun floor => memcpy floor.size floor.octet_string
  return {
    tower_length := octet_length + BitVec.ofNat 32 RPC_C_TOWER_FLR_COUNT_SIZE
    tower_octet_string := int16_octets order (RPC_RESOLVE_ENDIAN_INT16 order tower_ref.count) ++ octets.flatten }

def rpc__tower_to_tower_ref (tower : twr_t) : Except tower_status_t rpc_tower_ref_t := do
  let floor_count := RPC_RESOLVE_ENDIAN_INT16 order (← memcpy_int16 order tower.tower_octet_string)
  rpc__tower_ref_alloc order tower.tower_octet_string floor_count.toNat 1

structure rpc_flr_prot_id_t where
  prefix_id : Byte
  uuid : uuid_t
  deriving DecidableEq

structure rpc_tower_prot_ids_t where
  rpc_protseq_id : rpc_protseq_id_t
  num_floors : ℕ
  floor_prot_ids : List rpc_flr_prot_id_t

def dds_protocol_uuid : uuid_t := ⟨0x9865a080, 0xbb73, 0x11c9, 0x96, 0x3c, ⟨[0x08, 0x00, 0x2b, 0x13, 0xec, 0x4e], rfl⟩⟩
def dds_address_uuid : uuid_t := ⟨0x9b86b6a0, 0xbb73, 0x11c9, 0xb8, 0x89, ⟨[0x08, 0x00, 0x2b, 0x13, 0xec, 0x4e], rfl⟩⟩

/-- The table of `rpc__tower_ref_inq_protseq_id`. -/
def rpc_tower_prot_ids : List rpc_tower_prot_ids_t := [
  ⟨.NCACN_IP_TCP, 3, [⟨0x0B, uuid_g_nil_uuid⟩, ⟨0x07, uuid_g_nil_uuid⟩, ⟨0x09, uuid_g_nil_uuid⟩, ⟨0x00, uuid_g_nil_uuid⟩]⟩,
  ⟨.NCACN_DNET_NSP, 4, [⟨0x0B, uuid_g_nil_uuid⟩, ⟨0x02, uuid_g_nil_uuid⟩, ⟨0x04, uuid_g_nil_uuid⟩, ⟨0x06, uuid_g_nil_uuid⟩]⟩,
  ⟨.NCACN_OSI_DNA, 4, [⟨0x0B, uuid_g_nil_uuid⟩, ⟨0x03, uuid_g_nil_uuid⟩, ⟨0x04, uuid_g_nil_uuid⟩, ⟨0x06, uuid_g_nil_uuid⟩]⟩,
  ⟨.NCACN_OSI_DNA, 4, [⟨0x0B, uuid_g_nil_uuid⟩, ⟨0x03, uuid_g_nil_uuid⟩, ⟨0x05, uuid_g_nil_uuid⟩, ⟨0x06, uuid_g_nil_uuid⟩]⟩,
  ⟨.NCADG_IP_UDP, 3, [⟨0x0A, uuid_g_nil_uuid⟩, ⟨0x08, uuid_g_nil_uuid⟩, ⟨0x09, uuid_g_nil_uuid⟩, ⟨0x00, uuid_g_nil_uuid⟩]⟩,
  ⟨.NCADG_DDS, 3, [⟨0x0A, uuid_g_nil_uuid⟩, ⟨0x0D, dds_protocol_uuid⟩, ⟨0x0D, dds_address_uuid⟩, ⟨0x00, uuid_g_nil_uuid⟩]⟩]

/-- The protocol identifier of a floor as the search has it: its first byte, and a UUID behind that if there is one. -/
def floor_prot_id (floor : rpc_tower_floor_t) : Except tower_status_t rpc_flr_prot_id_t := do
  let prefix_id ← memcpy RPC_C_TOWER_PROT_ID_SIZE (RPC_PROT_ID_START floor)
  if RPC_C_TOWER_PROT_ID_SIZE < floor.prot_id_count.toNat then
    let uuid ← memcpy_uuid order ((RPC_PROT_ID_START floor).drop RPC_C_TOWER_PROT_ID_SIZE)
    return { prefix_id := prefix_id.getD 0 0, uuid := RPC_RESOLVE_ENDIAN_UUID order uuid }
  else return { prefix_id := prefix_id.getD 0 0, uuid := uuid_g_nil_uuid }

/-- Whether a protocol identifier of the table is among the tower's. The search ends with the status of a UUID that
cannot be compared. -/
def find_master (master : rpc_flr_prot_id_t) : List rpc_flr_prot_id_t → Except tower_status_t Bool
  | [] => .ok false
  | tower_prot_id :: rest =>
    if master.prefix_id = tower_prot_id.prefix_id then
      match (uuid_equal master.uuid tower_prot_id.uuid).run .error_status_ok with
      | (true, _) => .ok true
      | (false, .error_status_ok) => find_master master rest
      | (false, _) => .error .uuid_s_bad_version
    else find_master master rest

/-- The loop of `rpc__tower_ref_inq_protseq_id` over the table. -/
def find_protseq (tower_prot_ids : List rpc_flr_prot_id_t) : List rpc_tower_prot_ids_t → Except tower_status_t rpc_protseq_id_t
  | [] => .error .rpc_s_not_rpc_tower
  | entry :: rest =>
    if tower_prot_ids.length ≠ entry.num_floors then find_protseq tower_prot_ids rest
    else do
      let found ← (entry.floor_prot_ids.take entry.num_floors).mapM fun master => find_master master tower_prot_ids
      if found.all id then return entry.rpc_protseq_id else find_protseq tower_prot_ids rest

def rpc__tower_ref_inq_protseq_id (supported : rpc_protseq_id_t → Bool) (tower_ref : rpc_tower_ref_t) :
    Except tower_status_t rpc_protseq_id_t := do
  let floors ← tower_floors tower_ref
  let start_floor ←
    if RPC_C_FULL_TOWER_MIN_FLR_COUNT ≤ floors.length then pure (RPC_C_NUM_RPC_FLOORS - 1)
    else match floors with
      -- a tower without the first two floors, if its first one is of an RPC protocol
      | floor :: _ :: _ :: _ => match rpc__tower_flr_to_rpc_prot_id order supported floor with
        | .ok _ => pure 0
        | .error _ => .error .rpc_s_not_rpc_tower
      | _ => .error .rpc_s_not_rpc_tower
  let tower_prot_ids ← (floors.drop start_floor).mapM (floor_prot_id order)
  find_protseq tower_prot_ids rpc_tower_prot_ids

end Host

end dce.rpc
