import Dce.Rpc.TowerOctets

open lib dce.sec

set_option linter.style.nameCheck false

namespace dce.rpc

def towerUuid (uuid : uuid_t) : List Byte :=
  lowBytes 4 uuid.time_low.toNat ++ lowBytes 2 uuid.time_mid.toNat ++ lowBytes 2 uuid.time_hi_and_version.toNat ++
    [uuid.clock_seq_hi_and_reserved, uuid.clock_seq_low] ++ uuid.node.eaddr

@[simp] theorem length_towerUuid (uuid : uuid_t) : (towerUuid uuid).length = 16 := by
  simp [towerUuid, uuid.node.length]

def uuidFloor (uuid : uuid_t) (vers_major vers_minor : BitVec 16) : Floor where
  lhs := RPC_C_PROT_ID_PREFIX :: (towerUuid uuid ++ lowBytes 2 vers_major.toNat)
  rhs := lowBytes 2 vers_minor.toNat
  lhs_lt := by simp
  rhs_lt := by simp

def plainFloor (prot_id : Byte) (address : List Byte) (hlt : address.length < 2 ^ 16) : Floor where
  lhs := [prot_id]
  rhs := address
  lhs_lt := by simp
  rhs_lt := hlt

theorem drop_prot_id (prot_id : Byte) (rest : List Byte) : (prot_id :: rest).drop RPC_C_TOWER_PROT_ID_SIZE = rest := rfl

section Host

variable (order : ByteOrder)

variable {supported : rpc_protseq_id_t → Bool} (uuid : uuid_t) (if_spec : rpc_if_rep_t) (sa : sockaddr_t) (prot_id : Byte)

theorem uuid_octets_resolve : uuid_octets order (RPC_RESOLVE_ENDIAN_UUID order uuid) = towerUuid uuid := by
  simp only [uuid_octets, RPC_RESOLVE_ENDIAN_UUID, RPC_RESOLVE_ENDIAN_INT32, RPC_RESOLVE_ENDIAN_INT16,
    ByteOrder.store_little32, ByteOrder.store_little16, towerUuid]

theorem memcpy_uuid_towerUuid (rest : List Byte) :
    ∃ raw, memcpy_uuid order (towerUuid uuid ++ rest) = .ok raw ∧ RPC_RESOLVE_ENDIAN_UUID order raw = uuid := by
  have hsize : RPC_C_TOWER_UUID_SIZE ≤ (towerUuid uuid ++ rest).length := by simp [RPC_C_TOWER_UUID_SIZE]
  have hlow : (towerUuid uuid ++ rest).take 4 = lowBytes 4 uuid.time_low.toNat := rfl
  have hmid : ((towerUuid uuid ++ rest).drop 4).take 2 = lowBytes 2 uuid.time_mid.toNat := rfl
  have hhigh : ((towerUuid uuid ++ rest).drop 6).take 2 = lowBytes 2 uuid.time_hi_and_version.toNat := rfl
  have hseq_hi : (towerUuid uuid ++ rest).getD 8 0 = uuid.clock_seq_hi_and_reserved := rfl
  have hseq_low : (towerUuid uuid ++ rest).getD 9 0 = uuid.clock_seq_low := rfl
  have hnode : ((towerUuid uuid ++ rest).drop 10).take 6 = uuid.node.eaddr := List.take_left' uuid.node.length
  rw [memcpy_uuid, dif_pos hsize]
  refine ⟨_, rfl, ?_⟩
  simp only [RPC_RESOLVE_ENDIAN_UUID, RPC_RESOLVE_ENDIAN_INT32, RPC_RESOLVE_ENDIAN_INT16, hlow, hmid, hhigh, hseq_hi,
    hseq_low, hnode, ByteOrder.little32_load, ByteOrder.little16_load]

theorem rpc__tower_flr_id_from_uuid_eq (version_major : BitVec 32) :
    rpc__tower_flr_id_from_uuid order uuid version_major =
      RPC_C_PROT_ID_PREFIX :: (towerUuid uuid ++ lowBytes 2 (version_major.setWidth 16).toNat) := by
  rw [rpc__tower_flr_id_from_uuid, uuid_octets_resolve, int16_octets_resolve]

theorem rpc__tower_flr_from_uuid_eq (version_major version_minor : BitVec 32) :
    rpc__tower_flr_from_uuid order uuid version_major version_minor =
      (uuidFloor uuid (version_major.setWidth 16) (version_minor.setWidth 16)).reference [] := by
  rw [rpc__tower_flr_from_uuid, rpc__tower_flr_id_from_uuid_eq]
  simp [int16_octets_resolve, Floor.reference, Floor.octets, uuidFloor, counted, RPC_C_TOWER_VERSION_SIZE]

theorem address_int16_reference (f : Floor) (rest : List Byte) (v : BitVec 16) (hrhs : f.rhs = lowBytes 2 v.toNat) :
    ∃ raw, address_int16 order (f.reference rest) = .ok raw ∧ RPC_RESOLVE_ENDIAN_INT16 order raw = v := by
  have hcount : (f.reference rest).address_count.toNat = 2 := by
    rw [Floor.reference, hrhs, length_lowBytes]
    rfl
  rw [address_int16, if_pos hcount, address_start, hrhs, memcpy_int16_append]
  exact ⟨_, rfl, order.little16_load v⟩

theorem rpc__tower_flr_to_uuid_reference (vers_major vers_minor : BitVec 16) (rest : List Byte) :
    rpc__tower_flr_to_uuid order ((uuidFloor uuid vers_major vers_minor).reference rest) =
      .ok (uuid, vers_major.setWidth 32, vers_minor.setWidth 32) := by
  obtain ⟨minor, hminor, hresolved⟩ := address_int16_reference order (uuidFloor uuid vers_major vers_minor) rest vers_minor rfl
  have hid : ∀ tail : List Byte,
      rpc__tower_flr_id_to_uuid order ((uuidFloor uuid vers_major vers_minor).lhs ++ tail) = .ok (uuid, vers_major.setWidth 32) := by
    intro tail
    obtain ⟨raw, hraw, huuid⟩ := memcpy_uuid_towerUuid order uuid (lowBytes 2 vers_major.toNat ++ tail)
    have hprefix : (uuidFloor uuid vers_major vers_minor).lhs ++ tail =
        RPC_C_PROT_ID_PREFIX :: (towerUuid uuid ++ (lowBytes 2 vers_major.toNat ++ tail)) := by
      simp [uuidFloor]
    have hrest : (towerUuid uuid ++ (lowBytes 2 vers_major.toNat ++ tail)).drop RPC_C_TOWER_UUID_SIZE =
        lowBytes 2 vers_major.toNat ++ tail := List.drop_left' (length_towerUuid uuid)
    rw [rpc__tower_flr_id_to_uuid, hprefix, memcpy_prot_id]
    simp only [bind, Except.bind, drop_prot_id, hraw, hrest, memcpy_int16_append, huuid, resolve_load, BitVec.ofNat_toNat,
      BitVec.setWidth_eq]
    rfl
  rw [rpc__tower_flr_to_uuid, prot_id_start, hid]
  simp only [bind, Except.bind, hminor, hresolved]
  rfl

theorem rpc__tower_flr_to_drep_eq (transfer_syntax_id : rpc_syntax_id_t) (rest : List Byte) :
    rpc__tower_flr_to_drep order ((uuidFloor transfer_syntax_id.id ((transfer_syntax_id.version &&& 0x0000FFFF).setWidth 16)
      ((transfer_syntax_id.version >>> 16).setWidth 16)).reference rest) = .ok transfer_syntax_id := by
  obtain ⟨uuid, version⟩ := transfer_syntax_id
  have hversion : (((version >>> 16).setWidth 16).setWidth 32) <<< 16 |||
      ((version &&& 0x0000FFFF).setWidth 16).setWidth 32 = version := by
    apply BitVec.eq_of_getLsbD_eq
    intro i hi
    simp only [BitVec.getLsbD_or, BitVec.getLsbD_shiftLeft, BitVec.getLsbD_setWidth, BitVec.getLsbD_ushiftRight,
      BitVec.getLsbD_and]
    interval_cases i <;> simp
  rw [rpc__tower_flr_to_drep, rpc__tower_flr_to_uuid_reference]
  simp only [bind, Except.bind, hversion]
  rfl

theorem rpc__tower_flr_to_if_id_eq (if_id : rpc_if_id_t) (rest : List Byte) :
    rpc__tower_flr_to_if_id order ((uuidFloor if_id.uuid if_id.vers_major if_id.vers_minor).reference rest) = .ok if_id := by
  rw [rpc__tower_flr_to_if_id, rpc__tower_flr_to_uuid_reference]
  simp [bind, Except.bind, pure, Except.pure]

theorem network_inq_prot_vers_inj {p q : rpc_protocol_id_t} (h : (network_inq_prot_vers p).1 = (network_inq_prot_vers q).1) :
    p = q := by
  cases p <;> cases q <;> first | rfl | exact absurd h (by decide)

theorem find_rpc_prot_id_eq {rpc_protseq_id : rpc_protseq_id_t}
    (hsupported : supported rpc_protseq_id = true) {ids : List rpc_protseq_id_t} (hmem : rpc_protseq_id ∈ ids) :
    find_rpc_prot_id supported (network_inq_prot_vers (rpc_g_protseq_id rpc_protseq_id).rpc_protocol_id).1 ids =
      .ok ((rpc_g_protseq_id rpc_protseq_id).rpc_protocol_id,
        (network_inq_prot_vers (rpc_g_protseq_id rpc_protseq_id).rpc_protocol_id).2.1) := by
  induction ids with
  | nil => cases hmem
  | cons protseq_id ids ih =>
    rw [find_rpc_prot_id, rpc__network_inq_prot_version]
    by_cases hother : supported protseq_id = true
    · simp only [hother, Bool.not_true, Bool.false_eq_true, if_false]
      by_cases hsame : (network_inq_prot_vers (rpc_g_protseq_id rpc_protseq_id).rpc_protocol_id).1 =
          (network_inq_prot_vers (rpc_g_protseq_id protseq_id).rpc_protocol_id).1
      · rw [if_pos hsame, network_inq_prot_vers_inj hsame]
      · rw [if_neg hsame]
        refine ih (List.mem_of_ne_of_mem ?_ hmem)
        rintro rfl
        exact hsame rfl
    · have hnot : supported protseq_id = false := by simpa using hother
      simp only [hnot, Bool.not_false, if_true]
      refine ih (List.mem_of_ne_of_mem ?_ hmem)
      rintro rfl
      exact hother hsupported

/-- The minor version of the protocol that a binding has, or else the runtime. -/
def minor_version (binding_rep : rpc_binding_rep_t) : BitVec 32 := match binding_rep.protocol_version with
  | some protocol_version => protocol_version.minor_version
  | none => (network_inq_prot_vers (rpc_g_protseq_id binding_rep.rpc_addr.rpc_protseq_id).rpc_protocol_id).2.2

def protocolFloor (rpc_protocol_id : rpc_protocol_id_t) (vers_minor : BitVec 16) : Floor :=
  plainFloor (network_inq_prot_vers rpc_protocol_id).1 (lowBytes 2 vers_minor.toNat) (by simp)

theorem rpc__tower_flr_from_rpc_prot_id_eq (binding_rep : rpc_binding_rep_t)
    (hsupported : supported binding_rep.rpc_addr.rpc_protseq_id = true) :
    rpc__tower_flr_from_rpc_prot_id order supported binding_rep.rpc_addr.rpc_protseq_id binding_rep.protocol_version =
      .ok ((protocolFloor (rpc_g_protseq_id binding_rep.rpc_addr.rpc_protseq_id).rpc_protocol_id
        ((minor_version binding_rep).setWidth 16)).reference []) := by
  rw [rpc__tower_flr_from_rpc_prot_id, rpc__network_inq_prot_version, hsupported]
  cases hversion : binding_rep.protocol_version <;>
    simp [bind, Except.bind, pure, Except.pure, int16_octets_resolve, Floor.reference, Floor.octets, protocolFloor, plainFloor,
      counted, RPC_C_TOWER_VERSION_SIZE, RPC_C_TOWER_PROT_ID_SIZE, minor_version, hversion]

theorem rpc__tower_flr_to_rpc_prot_id_eq {rpc_protseq_id : rpc_protseq_id_t}
    (hsupported : supported rpc_protseq_id = true) (vers_minor : BitVec 16) (rest : List Byte) :
    rpc__tower_flr_to_rpc_prot_id order supported
      ((protocolFloor (rpc_g_protseq_id rpc_protseq_id).rpc_protocol_id vers_minor).reference rest) =
      .ok ((rpc_g_protseq_id rpc_protseq_id).rpc_protocol_id,
        (network_inq_prot_vers (rpc_g_protseq_id rpc_protseq_id).rpc_protocol_id).2.1, vers_minor.setWidth 32) := by
  obtain ⟨minor, hminor, hresolved⟩ := address_int16_reference order
    (protocolFloor (rpc_g_protseq_id rpc_protseq_id).rpc_protocol_id vers_minor) rest vers_minor rfl
  have hstart : memcpy RPC_C_TOWER_PROT_ID_SIZE
      ((protocolFloor (rpc_g_protseq_id rpc_protseq_id).rpc_protocol_id vers_minor).lhs ++
        (counted (protocolFloor (rpc_g_protseq_id rpc_protseq_id).rpc_protocol_id vers_minor).rhs ++ rest)) =
      .ok [(network_inq_prot_vers (rpc_g_protseq_id rpc_protseq_id).rpc_protocol_id).1] := memcpy_prot_id _ _
  rw [rpc__tower_flr_to_rpc_prot_id, prot_id_start, hstart]
  simp only [bind, Except.bind, List.getD_cons_zero, find_rpc_prot_id_eq hsupported (mem_protseq_ids rpc_protseq_id), hminor,
    hresolved]
  rfl

theorem floor_prot_id_plainFloor (address : List Byte) (hlt : address.length < 2 ^ 16) (rest : List Byte) :
    floor_prot_id order ((plainFloor prot_id address hlt).reference rest) = .ok ⟨prot_id, uuid_g_nil_uuid⟩ := by
  have hstart : memcpy RPC_C_TOWER_PROT_ID_SIZE ((plainFloor prot_id address hlt).lhs ++
      (counted (plainFloor prot_id address hlt).rhs ++ rest)) = .ok [prot_id] := memcpy_prot_id _ _
  have hcount : ¬ RPC_C_TOWER_PROT_ID_SIZE < ((plainFloor prot_id address hlt).reference rest).prot_id_count.toNat := by
    change ¬ 1 < 1
    omega
  rw [floor_prot_id, prot_id_start, hstart]
  simp only [bind, Except.bind, if_neg hcount]
  rfl

theorem find_ip_floors_skip (count : ℕ) (f : Floor) (rest : List Byte)
    (hother : f.lhs ≠ [TWR_C_FLR_PROT_ID_TCP] ∧ f.lhs ≠ [TWR_C_FLR_PROT_ID_UDP]) :
    find_ip_floors order (count + 1) (f.octets ++ rest) = find_ip_floors order count rest := by
  have hid : ∃ id, memcpy TWR_C_TOWER_PROT_ID_SIZE (f.lhs ++ (counted f.rhs ++ rest)) = .ok id ∧
      (f.lhs.length = TWR_C_TOWER_PROT_ID_SIZE → id = f.lhs) := by
    by_cases hone : f.lhs.length = TWR_C_TOWER_PROT_ID_SIZE
    · exact ⟨f.lhs, memcpy_append hone _, fun _ => rfl⟩
    · refine ⟨_, if_pos ?_, fun h => absurd h hone⟩
      simp [TWR_C_TOWER_PROT_ID_SIZE, RPC_C_TOWER_PROT_ID_SIZE]
      omega
  obtain ⟨id, hid, hsame⟩ := hid
  have hnot : ¬ (f.lhs.length = TWR_C_TOWER_PROT_ID_SIZE ∧ (id = [TWR_C_FLR_PROT_ID_TCP] ∨ id = [TWR_C_FLR_PROT_ID_UDP])) := by
    rintro ⟨hone, hport⟩
    rw [hsame hone] at hport
    exact hport.elim hother.1 hother.2
  rw [find_ip_floors, memcpy_int16_lhs]
  simp only [bind, Except.bind, resolve_load, toNat_ofNat_of_lt f.lhs_lt, TWR_C_TOWER_FLR_LHS_COUNT_SIZE,
    RPC_C_TOWER_FLR_LHS_COUNT_SIZE, drop_octets_two, hid, if_neg hnot, memcpy_int16_rhs, toNat_ofNat_of_lt f.rhs_lt,
    TWR_C_TOWER_FLR_RHS_COUNT_SIZE, RPC_C_TOWER_FLR_RHS_COUNT_SIZE, drop_octets]

theorem find_ip_floors_port (count : ℕ) {prot_id : Byte} (hport : prot_id = TWR_C_FLR_PROT_ID_TCP ∨ prot_id = TWR_C_FLR_PROT_ID_UDP)
    (address : List Byte) (hlt : address.length < 2 ^ 16) (rest : List Byte) :
    find_ip_floors order (count + 1) ((plainFloor prot_id address hlt).octets ++ rest) = .ok (counted address ++ rest) := by
  have hid : memcpy TWR_C_TOWER_PROT_ID_SIZE ((plainFloor prot_id address hlt).lhs ++
      (counted (plainFloor prot_id address hlt).rhs ++ rest)) = .ok [prot_id] := memcpy_prot_id _ _
  have hfound : (plainFloor prot_id address hlt).lhs.length = TWR_C_TOWER_PROT_ID_SIZE ∧
      ([prot_id] = [TWR_C_FLR_PROT_ID_TCP] ∨ [prot_id] = [TWR_C_FLR_PROT_ID_UDP]) := by
    refine ⟨rfl, hport.imp (fun h => ?_) (fun h => ?_)⟩ <;> rw [h]
  have hdrop : ((plainFloor prot_id address hlt).octets ++ rest).drop (2 + (plainFloor prot_id address hlt).lhs.length) =
      counted address ++ rest := by
    rw [Floor.octets, List.append_assoc, drop_counted]
    rfl
  rw [find_ip_floors, memcpy_int16_lhs]
  simp only [bind, Except.bind, resolve_load, toNat_ofNat_of_lt (plainFloor prot_id address hlt).lhs_lt,
    TWR_C_TOWER_FLR_LHS_COUNT_SIZE, RPC_C_TOWER_FLR_LHS_COUNT_SIZE, drop_octets_two, hid, if_pos hfound, hdrop]
  rfl

def internet_sa (port address : List Byte) (hport : port.length = 2) (haddress : address.length = 4) : sockaddr_t where
  family := RPC_C_NAF_ID_IP
  data := port ++ address ++ List.replicate 8 0
  length := by simp [hport, haddress]

theorem length_sin_port : sa.sin_port.length = 2 := by simp [sockaddr_t.sin_port, sa.length]

theorem length_s_addr : sa.s_addr.length = 4 := by simp [sockaddr_t.s_addr, sa.length]

def portFloor (prot_id : Byte) (sa : sockaddr_t) : Floor :=
  plainFloor prot_id sa.sin_port (by rw [length_sin_port]; norm_num)

def hostFloor (sa : sockaddr_t) : Floor := plainFloor TWR_C_FLR_PROT_ID_IP sa.s_addr (by rw [length_s_addr]; norm_num)

theorem find_ip_floors_eq (sa : sockaddr_t)
    (hport : prot_id = TWR_C_FLR_PROT_ID_TCP ∨ prot_id = TWR_C_FLR_PROT_ID_UDP) (upper : List Floor)
    (hupper : ∀ f ∈ upper, f.lhs ≠ [TWR_C_FLR_PROT_ID_TCP] ∧ f.lhs ≠ [TWR_C_FLR_PROT_ID_UDP]) :
    find_ip_floors order (upper ++ [portFloor prot_id sa, hostFloor sa]).length
      (floorOctets (upper ++ [portFloor prot_id sa, hostFloor sa])) = .ok (counted sa.sin_port ++ (hostFloor sa).octets) := by
  induction upper with
  | nil =>
    have hrest : floorOctets [hostFloor sa] = (hostFloor sa).octets := by
      rw [floorOctets_cons, floorOctets_nil, List.append_nil]
    rw [List.nil_append, floorOctets_cons, hrest]
    exact find_ip_floors_port order 1 hport sa.sin_port _ _
  | cons f upper ih =>
    rw [List.cons_append, List.length_cons, floorOctets_cons, find_ip_floors_skip order _ f _ (hupper f List.mem_cons_self)]
    exact ih fun g hg => hupper g (List.mem_cons_of_mem f hg)

theorem memcpy_sa_port : ∃ filled, memcpy_sa 0 sa.sin_port null_sa = .ok filled ∧
    memcpy_sa 2 sa.s_addr filled = .ok (internet_sa sa.sin_port sa.s_addr (length_sin_port sa) (length_s_addr sa)) := by
  have hport := length_sin_port sa
  have haddr := length_s_addr sa
  obtain ⟨p₀, p₁, hp⟩ := List.length_eq_two.mp hport
  obtain ⟨a₀, a₁, a₂, a₃, ha⟩ := List.length_eq_four.mp haddr
  have hfits : 0 + sa.sin_port.length ≤ 14 := by omega
  have hfits' : 2 + sa.s_addr.length ≤ 14 := by omega
  refine ⟨_, dif_pos hfits, ?_⟩
  rw [memcpy_sa, dif_pos hfits']
  simp [internet_sa, null_sa, hp, ha]

theorem twr_ip_lower_flrs_to_sa_eq (t : Tower) (upper : List Floor) (prot_id : Byte) (sa : sockaddr_t)
    (hfloors : t.floors = upper ++ [portFloor prot_id sa, hostFloor sa])
    (hupper : ∀ f ∈ upper, f.lhs ≠ [TWR_C_FLR_PROT_ID_TCP] ∧ f.lhs ≠ [TWR_C_FLR_PROT_ID_UDP])
    (hport : prot_id = TWR_C_FLR_PROT_ID_TCP ∨ prot_id = TWR_C_FLR_PROT_ID_UDP) :
    twr_ip_lower_flrs_to_sa order t.octets =
      .ok (internet_sa sa.sin_port sa.s_addr (length_sin_port sa) (length_s_addr sa)) := by
  have hcount : memcpy_int16 order t.octets = .ok (BitVec.ofNat 16 (order.load (lowBytes 2 t.floors.length))) :=
    memcpy_int16_append order t.floors.length (floorOctets t.floors)
  have hdrop : t.octets.drop TWR_C_TOWER_FLR_COUNT_SIZE = floorOctets t.floors :=
    List.drop_left' (length_lowBytes 2 t.floors.length)
  have hsome : t.floors.length ≠ 0 := by simp [hfloors]
  have hfind : find_ip_floors order t.floors.length (floorOctets t.floors) =
      .ok (counted sa.sin_port ++ (counted [TWR_C_FLR_PROT_ID_IP] ++ counted sa.s_addr)) := by
    rw [hfloors]
    exact find_ip_floors_eq order prot_id sa hport upper hupper
  have hport_size : (BitVec.ofNat 16 sa.sin_port.length).toNat = 2 := by rw [length_sin_port]; rfl
  have haddr_size : (BitVec.ofNat 16 sa.s_addr.length).toNat = 4 := by rw [length_s_addr]; rfl
  have hid_size : (BitVec.ofNat 16 [TWR_C_FLR_PROT_ID_IP].length).toNat = 1 := rfl
  obtain ⟨filled, hfilled, hfinal⟩ := memcpy_sa_port sa
  have hport_copy : memcpy 2 (sa.sin_port ++ (counted [TWR_C_FLR_PROT_ID_IP] ++ counted sa.s_addr)) = .ok sa.sin_port :=
    memcpy_append (length_sin_port sa) _
  have hport_drop : (sa.sin_port ++ (counted [TWR_C_FLR_PROT_ID_IP] ++ counted sa.s_addr)).drop 2 =
      counted [TWR_C_FLR_PROT_ID_IP] ++ counted sa.s_addr := List.drop_left' (length_sin_port sa)
  have hid : memcpy 1 ([TWR_C_FLR_PROT_ID_IP] ++ counted sa.s_addr) = .ok [TWR_C_FLR_PROT_ID_IP] := memcpy_prot_id _ _
  have hid_drop : ([TWR_C_FLR_PROT_ID_IP] ++ counted sa.s_addr).drop 1 = counted sa.s_addr := rfl
  have haddr_read : memcpy_int16 order (counted sa.s_addr) =
      .ok (BitVec.ofNat 16 (order.load (lowBytes 2 sa.s_addr.length))) := memcpy_int16_append order _ _
  have haddr_drop : (counted sa.s_addr).drop 2 = sa.s_addr := List.drop_left' (length_lowBytes 2 _)
  rw [twr_ip_lower_flrs_to_sa, hcount]
  simp only [bind, Except.bind, resolve_load, toNat_ofNat_of_lt t.length_lt, if_neg hsome, hdrop, hfind,
    memcpy_int16_counted, hport_size, RPC_C_TOWER_FLR_RHS_COUNT_SIZE, drop_two_counted, hport_copy, hfilled, hport_drop,
    hid_size, TWR_C_TOWER_FLR_LHS_COUNT_SIZE, RPC_C_TOWER_FLR_LHS_COUNT_SIZE, TWR_C_TOWER_PROT_ID_SIZE,
    RPC_C_TOWER_PROT_ID_SIZE, hid, hid_drop, ne_eq, not_true_eq_false, or_self, if_false, haddr_read, haddr_size, haddr_drop,
    memcpy_self (length_s_addr sa), hfinal]

/-- The transport's floor identifier, which the code takes for the transports of the internet. -/
def transport_id (rpc_protseq_id : rpc_protseq_id_t) : Byte :=
  if (rpc_g_protseq_id rpc_protseq_id).network_protocol_id = RPC_C_NETWORK_PROTOCOL_ID_TCP then TWR_C_FLR_PROT_ID_TCP
  else TWR_C_FLR_PROT_ID_UDP

theorem ip_floor_octets_eq (address : List Byte) (hlt : address.length < 2 ^ 16) :
    ip_floor_octets order prot_id address = (plainFloor prot_id address hlt).octets := by
  have hlen : (BitVec.ofNat 16 address.length).toNat = address.length := toNat_ofNat_of_lt hlt
  have hone : (BitVec.ofNat 16 TWR_C_TOWER_PROT_ID_SIZE).toNat = 1 := rfl
  simp only [ip_floor_octets, int16_octets_resolve, hlen, hone, Floor.octets, counted, plainFloor, List.append_assoc]
  rfl

theorem tower_flrs_from_addr_eq {rpc_addr : rpc_addr_t} (hnaf : (rpc_g_protseq_id rpc_addr.rpc_protseq_id).naf_id = RPC_C_NAF_ID_IP)
    (hfamily : rpc_addr.sa.family = RPC_C_NAF_ID_IP) :
    tower_flrs_from_addr order rpc_addr = .ok ⟨18, lowBytes 2 2 ++
      floorOctets [portFloor (transport_id rpc_addr.rpc_protseq_id) rpc_addr.sa, hostFloor rpc_addr.sa]⟩ := by
  have hcount : int16_octets order (RPC_RESOLVE_ENDIAN_INT16 order (BitVec.ofNat 16 TWR_C_NUM_IP_LOWER_FLRS)) = lowBytes 2 2 :=
    int16_octets_resolve order _
  obtain ⟨rpc_protseq_id, sa⟩ := rpc_addr
  have hport : ∀ prot_id, ip_floor_octets order prot_id sa.sin_port = (portFloor prot_id sa).octets :=
    fun prot_id => ip_floor_octets_eq order prot_id sa.sin_port _
  have hhost : ip_floor_octets order TWR_C_FLR_PROT_ID_IP sa.s_addr = (hostFloor sa).octets :=
    ip_floor_octets_eq order TWR_C_FLR_PROT_ID_IP sa.s_addr _
  rw [tower_flrs_from_addr, twr_ip_lower_flrs_from_sa, if_pos hfamily]
  cases rpc_protseq_id with
  | NCACN_IP_TCP =>
    simp [bind, Except.bind, pure, Except.pure, rpc_g_protseq_id, hcount, hport, hhost, transport_id, length_sin_port, length_s_addr]
    rfl
  | NCADG_IP_UDP =>
    simp [bind, Except.bind, pure, Except.pure, rpc_g_protseq_id, hcount, hport, hhost, transport_id, length_sin_port, length_s_addr,
      RPC_C_NETWORK_PROTOCOL_ID_TCP, RPC_C_NETWORK_PROTOCOL_ID_UDP]
    rfl
  | NCACN_DNET_NSP => exact absurd (show RPC_C_NAF_ID_DNET = RPC_C_NAF_ID_IP from hnaf) (by decide)
  | NCACN_OSI_DNA => exact absurd (show RPC_C_NAF_ID_OSI = RPC_C_NAF_ID_IP from hnaf) (by decide)
  | NCADG_DDS => exact absurd (show RPC_C_NAF_ID_DDS = RPC_C_NAF_ID_IP from hnaf) (by decide)

def upperFloors (if_spec : rpc_if_rep_t) (transfer_syntax_id : rpc_syntax_id_t) (binding_rep : rpc_binding_rep_t) : List Floor :=
  [uuidFloor (rpc_if_inq_id if_spec).uuid (rpc_if_inq_id if_spec).vers_major (rpc_if_inq_id if_spec).vers_minor,
    uuidFloor transfer_syntax_id.id ((transfer_syntax_id.version &&& 0x0000FFFF).setWidth 16)
      ((transfer_syntax_id.version >>> 16).setWidth 16),
    protocolFloor (rpc_g_protseq_id binding_rep.rpc_addr.rpc_protseq_id).rpc_protocol_id ((minor_version binding_rep).setWidth 16)]

def lowerFloors (rpc_addr : rpc_addr_t) : List Floor :=
  [portFloor (transport_id rpc_addr.rpc_protseq_id) rpc_addr.sa, hostFloor rpc_addr.sa]

def bindingTower (if_spec : rpc_if_rep_t) (transfer_syntax_id : rpc_syntax_id_t) (binding_rep : rpc_binding_rep_t) : Tower where
  floors := upperFloors if_spec transfer_syntax_id binding_rep ++ lowerFloors binding_rep.rpc_addr
  length_lt := by simp [upperFloors, lowerFloors]

/-- The reference that the code makes to the tower of a binding. -/
def bindingReference (if_spec : rpc_if_rep_t) (binding_rep : rpc_binding_rep_t) (transfer_syntax_id : rpc_syntax_id_t) :
    rpc_tower_ref_t where
  count := 5
  floor := ((upperFloors if_spec transfer_syntax_id binding_rep).map (Floor.reference · []) ++
    references (lowerFloors binding_rep.rpc_addr) []).map some

theorem bindingReference_shows (binding_rep : rpc_binding_rep_t) (transfer_syntax_id : rpc_syntax_id_t) :
    (bindingReference if_spec binding_rep transfer_syntax_id).Shows (bindingTower if_spec transfer_syntax_id binding_rep) := by
  refine ⟨rfl, _, rfl, ?_⟩
  exact .cons ⟨_, rfl⟩ (.cons ⟨_, rfl⟩ (.cons ⟨_, rfl⟩ (shows_references _ _)))

theorem copy_bindingReference (binding_rep : rpc_binding_rep_t) (transfer_syntax_id : rpc_syntax_id_t) :
    rpc__tower_ref_copy (bindingReference if_spec binding_rep transfer_syntax_id) =
      .ok (bindingReference if_spec binding_rep transfer_syntax_id) := by
  have hcount : (5 : BitVec 16).toNat = ((upperFloors if_spec transfer_syntax_id binding_rep).map (Floor.reference · []) ++
      references (lowerFloors binding_rep.rpc_addr) []).length := rfl
  rw [rpc__tower_ref_copy, bindingReference, tower_floors_some hcount]
  rfl

theorem rpc__tower_flr_from_drep_eq (transfer_syntax_id : rpc_syntax_id_t) : rpc__tower_flr_from_drep order transfer_syntax_id =
    (uuidFloor transfer_syntax_id.id ((transfer_syntax_id.version &&& 0x0000FFFF).setWidth 16)
      ((transfer_syntax_id.version >>> 16).setWidth 16)).reference [] :=
  rpc__tower_flr_from_uuid_eq order _ _ _

theorem rpc__tower_flr_from_if_id_eq (if_id : rpc_if_id_t) :
    rpc__tower_flr_from_if_id order if_id = (uuidFloor if_id.uuid if_id.vers_major if_id.vers_minor).reference [] := by
  rw [rpc__tower_flr_from_if_id, rpc__tower_flr_from_uuid_eq]
  simp

theorem mapM_ok {α β : Type} (f : α → Except tower_status_t β) (g : α → β) (hf : ∀ a, f a = .ok (g a)) (as : List α) :
    as.mapM f = .ok (as.map g) := by
  induction as with
  | nil => rfl
  | cons a as ih =>
    rw [List.mapM_cons, hf, ih]
    rfl

theorem add_floor_bindingReference (binding_rep : rpc_binding_rep_t)
    (transfer_syntax_id other : rpc_syntax_id_t) :
    rpc__tower_ref_add_floor 2 (rpc__tower_flr_from_drep order other) (bindingReference if_spec binding_rep transfer_syntax_id) =
      bindingReference if_spec binding_rep other := by
  rw [rpc__tower_flr_from_drep_eq]
  rfl

theorem rpc__tower_ref_vec_from_binding_eq {if_spec : rpc_if_rep_t}
    {binding_rep : rpc_binding_rep_t} (hvector_at : if_spec.syntax_vector ≠ [])
    (hsupported : supported binding_rep.rpc_addr.rpc_protseq_id = true)
    (hnaf : (rpc_g_protseq_id binding_rep.rpc_addr.rpc_protseq_id).naf_id = RPC_C_NAF_ID_IP)
    (hfamily : binding_rep.rpc_addr.sa.family = RPC_C_NAF_ID_IP) :
    rpc__tower_ref_vec_from_binding order supported if_spec binding_rep =
      .ok (if_spec.syntax_vector.map (bindingReference if_spec binding_rep)) := by
  have halloc : alloc_floors order 2 (floorOctets (lowerFloors binding_rep.rpc_addr)) =
      .ok (references (lowerFloors binding_rep.rpc_addr) []) := by
    have hall := alloc_floors_eq order (lowerFloors binding_rep.rpc_addr) []
    rwa [List.append_nil] at hall
  have hcount : (BitVec.ofNat 16 2).toNat = 2 := rfl
  have hdrop : (lowBytes 2 2 ++ floorOctets (lowerFloors binding_rep.rpc_addr)).drop RPC_C_TOWER_FLR_COUNT_SIZE =
      floorOctets (lowerFloors binding_rep.rpc_addr) := List.drop_left' (length_lowBytes 2 2)
  have href : rpc__tower_ref_alloc order (lowBytes 2 2 ++ floorOctets (lowerFloors binding_rep.rpc_addr))
      (RPC_C_NUM_RPC_FLOORS + 2) (RPC_C_NUM_RPC_FLOORS + 1) = 
        .ok ⟨5, [none, none, none] ++ (references (lowerFloors binding_rep.rpc_addr) []).map some⟩ := by
    rw [rpc__tower_ref_alloc, hdrop, show RPC_C_NUM_RPC_FLOORS + 2 - (RPC_C_NUM_RPC_FLOORS + 1 - 1) = 2 from rfl, halloc]
    rfl
  obtain ⟨first, rest, hvector⟩ := List.exists_cons_of_ne_nil hvector_at
  have hcopies : (rest.mapM fun if_syntax_id => do
      let tower_copy ← rpc__tower_ref_copy (bindingReference if_spec binding_rep first)
      return rpc__tower_ref_add_floor 2 (rpc__tower_flr_from_drep order if_syntax_id) tower_copy) =
      .ok (rest.map (bindingReference if_spec binding_rep)) := by
    refine mapM_ok _ _ (fun other => ?_) rest
    rw [copy_bindingReference, ← add_floor_bindingReference order if_spec binding_rep first other]
    rfl
  have hfirst : rpc__tower_ref_add_floor 3 ((protocolFloor (rpc_g_protseq_id binding_rep.rpc_addr.rpc_protseq_id).rpc_protocol_id
        ((minor_version binding_rep).setWidth 16)).reference [])
      (rpc__tower_ref_add_floor 2 (rpc__tower_flr_from_drep order first)
        (rpc__tower_ref_add_floor 1 (rpc__tower_flr_from_if_id order (rpc_if_inq_id if_spec))
          ⟨5, [none, none, none] ++ (references (lowerFloors binding_rep.rpc_addr) []).map some⟩)) =
      bindingReference if_spec binding_rep first := by
    rw [rpc__tower_flr_from_if_id_eq, rpc__tower_flr_from_drep_eq]
    rfl
  have hlower : [portFloor (transport_id binding_rep.rpc_addr.rpc_protseq_id) binding_rep.rpc_addr.sa,
      hostFloor binding_rep.rpc_addr.sa] = lowerFloors binding_rep.rpc_addr := rfl
  rw [rpc__tower_ref_vec_from_binding, tower_flrs_from_addr_eq order hnaf hfamily, hvector, hlower]
  simp only [bind, Except.bind, memcpy_int16_append, resolve_load, hcount, href,
    rpc__tower_flr_from_rpc_prot_id_eq order binding_rep hsupported, hfirst]
  simp only [bind, Except.bind] at hcopies
  rw [hcopies]
  rfl

end Host

/-- What a tower gives back when its canonical form is taken apart on a host. -/
structure GivesBack (order : ByteOrder) (supported : rpc_protseq_id_t → Bool) (tower : twr_t) (if_id : rpc_if_id_t)
    (transfer_syntax_id : rpc_syntax_id_t) (rpc_protseq_id : rpc_protseq_id_t) (vers_minor : BitVec 32) (sa : sockaddr_t) : Prop where
  reference : ∃ tower_ref floor₁ floor₂ floor₃ lower, rpc__tower_to_tower_ref order tower = .ok tower_ref ∧
    tower_ref.floor = some floor₁ :: some floor₂ :: some floor₃ :: lower ∧
    rpc__tower_flr_to_if_id order floor₁ = .ok if_id ∧
    rpc__tower_flr_to_drep order floor₂ = .ok transfer_syntax_id ∧
    rpc__tower_flr_to_rpc_prot_id order supported floor₃ = .ok ((rpc_g_protseq_id rpc_protseq_id).rpc_protocol_id,
      (network_inq_prot_vers (rpc_g_protseq_id rpc_protseq_id).rpc_protocol_id).2.1, vers_minor) ∧
    rpc__tower_ref_inq_protseq_id order supported tower_ref = .ok rpc_protseq_id
  address : ∃ back, twr_ip_lower_flrs_to_sa order tower.tower_octet_string = .ok back ∧
    back.family = sa.family ∧ back.sin_port = sa.sin_port ∧ back.s_addr = sa.s_addr

/-- The tower that one host makes for a binding and a transfer syntax has the length of its content and gives back on
another host what it was made of. -/
def RoundTrips (order other : ByteOrder) (supported supported_there : rpc_protseq_id_t → Bool) (if_spec : rpc_if_rep_t)
    (transfer_syntax_id : rpc_syntax_id_t) (i : ℕ) (binding_rep : rpc_binding_rep_t) : Prop :=
  ∃ towers tower_ref tower, rpc__tower_ref_vec_from_binding order supported if_spec binding_rep = .ok towers ∧
    towers[i]? = some tower_ref ∧ rpc__tower_from_tower_ref order tower_ref = .ok tower ∧
    tower.tower_length.toNat = tower.tower_octet_string.length ∧
    GivesBack other supported_there tower (rpc_if_inq_id if_spec) transfer_syntax_id binding_rep.rpc_addr.rpc_protseq_id
      (minor_version binding_rep) binding_rep.rpc_addr.sa

/-- A tower in its canonical form is well-formed when its octets are the count of some floors and the floors, each of two
counted strings, and its length is the number of octets. -/
def twr_t.WellFormed (tower : twr_t) : Prop := ∃ t, tower.Holds t

/-- The tower reference of a canonical tower, made canonical again, is the tower. -/
def Reproduces (order : ByteOrder) (tower : twr_t) : Prop :=
  ∃ tower_ref, rpc__tower_to_tower_ref order tower = .ok tower_ref ∧ rpc__tower_from_tower_ref order tower_ref = .ok tower

theorem reproduces (order : ByteOrder) {tower : twr_t} (h : tower.WellFormed) : Reproduces order tower := by
  obtain ⟨t, hholds⟩ := h
  refine ⟨_, rpc__tower_to_tower_ref_eq order hholds, ?_⟩
  rw [rpc__tower_from_tower_ref_eq order ⟨rfl, _, rfl, shows_references t.floors []⟩, ← hholds.2, ← hholds.1,
    BitVec.ofNat_toNat, BitVec.setWidth_eq]

theorem transport_id_cases (rpc_protseq_id : rpc_protseq_id_t) :
    transport_id rpc_protseq_id = TWR_C_FLR_PROT_ID_TCP ∨ transport_id rpc_protseq_id = TWR_C_FLR_PROT_ID_UDP := by
  unfold transport_id
  split
  · exact .inl rfl
  · exact .inr rfl

theorem upperFloors_lhs (if_spec : rpc_if_rep_t) (transfer_syntax_id : rpc_syntax_id_t) (binding_rep : rpc_binding_rep_t) :
    ∀ f ∈ upperFloors if_spec transfer_syntax_id binding_rep,
      f.lhs ≠ [TWR_C_FLR_PROT_ID_TCP] ∧ f.lhs ≠ [TWR_C_FLR_PROT_ID_UDP] := by
  have huuid : ∀ uuid vers_major vers_minor prot_id, (uuidFloor uuid vers_major vers_minor).lhs ≠ [prot_id] := by
    intro uuid vers_major vers_minor prot_id h
    have hlength := congrArg List.length h
    simp [uuidFloor] at hlength
  have hprotocol : ∀ rpc_protocol_id vers_minor, (protocolFloor rpc_protocol_id vers_minor).lhs ≠ [TWR_C_FLR_PROT_ID_TCP] ∧
      (protocolFloor rpc_protocol_id vers_minor).lhs ≠ [TWR_C_FLR_PROT_ID_UDP] := by
    intro rpc_protocol_id vers_minor
    cases rpc_protocol_id <;> exact ⟨by simp [protocolFloor, plainFloor, network_inq_prot_vers, RPC_C_CN_PROTO_ID,
      RPC_C_DG_PROTO_ID, TWR_C_FLR_PROT_ID_TCP], by simp [protocolFloor, plainFloor, network_inq_prot_vers, RPC_C_CN_PROTO_ID,
      RPC_C_DG_PROTO_ID, TWR_C_FLR_PROT_ID_UDP]⟩
  intro f hf
  simp only [upperFloors, List.mem_cons, List.not_mem_nil, or_false] at hf
  obtain rfl | rfl | rfl := hf
  · exact ⟨huuid _ _ _ _, huuid _ _ _ _⟩
  · exact ⟨huuid _ _ _ _, huuid _ _ _ _⟩
  · exact hprotocol _ _

theorem find_protseq_eq {rpc_protseq_id : rpc_protseq_id_t} (hnaf : (rpc_g_protseq_id rpc_protseq_id).naf_id = RPC_C_NAF_ID_IP) :
    find_protseq [⟨(network_inq_prot_vers (rpc_g_protseq_id rpc_protseq_id).rpc_protocol_id).1, uuid_g_nil_uuid⟩,
      ⟨transport_id rpc_protseq_id, uuid_g_nil_uuid⟩, ⟨TWR_C_FLR_PROT_ID_IP, uuid_g_nil_uuid⟩] rpc_tower_prot_ids =
      .ok rpc_protseq_id := by
  cases rpc_protseq_id with
  | NCACN_IP_TCP => rfl
  | NCADG_IP_UDP => rfl
  | NCACN_DNET_NSP => exact absurd (show RPC_C_NAF_ID_DNET = RPC_C_NAF_ID_IP from hnaf) (by decide)
  | NCACN_OSI_DNA => exact absurd (show RPC_C_NAF_ID_OSI = RPC_C_NAF_ID_IP from hnaf) (by decide)
  | NCADG_DDS => exact absurd (show RPC_C_NAF_ID_DDS = RPC_C_NAF_ID_IP from hnaf) (by decide)

variable {binding_rep : rpc_binding_rep_t} {transfer_syntax_id : rpc_syntax_id_t} {if_spec : rpc_if_rep_t}

theorem rpc__tower_ref_inq_protseq_id_eq (order : ByteOrder) (supported : rpc_protseq_id_t → Bool) (if_spec : rpc_if_rep_t)
    (transfer_syntax_id : rpc_syntax_id_t)
    (hnaf : (rpc_g_protseq_id binding_rep.rpc_addr.rpc_protseq_id).naf_id = RPC_C_NAF_ID_IP) :
    rpc__tower_ref_inq_protseq_id order supported
      ⟨5, (references (bindingTower if_spec transfer_syntax_id binding_rep).floors []).map some⟩ =
      .ok binding_rep.rpc_addr.rpc_protseq_id := by
  have hcount : (5 : BitVec 16).toNat = (references (bindingTower if_spec transfer_syntax_id binding_rep).floors []).length := rfl
  have hfull : RPC_C_FULL_TOWER_MIN_FLR_COUNT ≤
      (references (bindingTower if_spec transfer_syntax_id binding_rep).floors []).length := hcount.le
  have hprot_ids : ((references (bindingTower if_spec transfer_syntax_id binding_rep).floors []).drop
      (RPC_C_NUM_RPC_FLOORS - 1)).mapM (floor_prot_id order) =
      .ok [⟨(network_inq_prot_vers (rpc_g_protseq_id binding_rep.rpc_addr.rpc_protseq_id).rpc_protocol_id).1, uuid_g_nil_uuid⟩,
        ⟨transport_id binding_rep.rpc_addr.rpc_protseq_id, uuid_g_nil_uuid⟩, ⟨TWR_C_FLR_PROT_ID_IP, uuid_g_nil_uuid⟩] := by
    have hdrop : (references (bindingTower if_spec transfer_syntax_id binding_rep).floors []).drop (RPC_C_NUM_RPC_FLOORS - 1) =
        [(protocolFloor _ _).reference _, (portFloor _ _).reference _, (hostFloor _).reference _] := rfl
    rw [hdrop, List.mapM_cons, List.mapM_cons, List.mapM_cons, protocolFloor, portFloor, hostFloor, floor_prot_id_plainFloor,
      floor_prot_id_plainFloor, floor_prot_id_plainFloor]
    rfl
  rw [rpc__tower_ref_inq_protseq_id, tower_floors_some hcount]
  simp only [bind, Except.bind, if_pos hfull, pure, Except.pure, hprot_ids]
  exact find_protseq_eq hnaf

theorem sin_port_internet_sa {port address : List Byte} (hport : port.length = 2) (haddress : address.length = 4) :
    (internet_sa port address hport haddress).sin_port = port := by
  have htake : (port ++ address ++ List.replicate 8 0).take 2 = port := by
    rw [List.append_assoc, List.take_left' hport]
  exact htake

theorem s_addr_internet_sa {port address : List Byte} (hport : port.length = 2) (haddress : address.length = 4) :
    (internet_sa port address hport haddress).s_addr = address := by
  have htake : ((port ++ address ++ List.replicate 8 0).drop 2).take 4 = address := by
    rw [List.append_assoc, List.drop_left' hport, List.take_left' haddress]
  exact htake

theorem givesBack_bindingTower (order : ByteOrder) {supported : rpc_protseq_id_t → Bool}
    {tower : twr_t}
    (hholds : tower.Holds (bindingTower if_spec transfer_syntax_id binding_rep))
    (hsupported : supported binding_rep.rpc_addr.rpc_protseq_id = true)
    (hnaf : (rpc_g_protseq_id binding_rep.rpc_addr.rpc_protseq_id).naf_id = RPC_C_NAF_ID_IP)
    (hfamily : binding_rep.rpc_addr.sa.family = RPC_C_NAF_ID_IP)
    (hminor : (minor_version binding_rep).toNat < 2 ^ 16) :
    GivesBack order supported tower (rpc_if_inq_id if_spec) transfer_syntax_id binding_rep.rpc_addr.rpc_protseq_id
      (minor_version binding_rep) binding_rep.rpc_addr.sa := by
  have hwidth : ((minor_version binding_rep).setWidth 16).setWidth 32 = minor_version binding_rep := by
    apply BitVec.eq_of_toNat_eq
    simp only [BitVec.toNat_setWidth]
    omega
  constructor
  · refine ⟨_, _, _, _, _, rpc__tower_to_tower_ref_eq order hholds, rfl, rpc__tower_flr_to_if_id_eq order _ _,
      rpc__tower_flr_to_drep_eq order _ _, ?_, rpc__tower_ref_inq_protseq_id_eq order supported if_spec transfer_syntax_id hnaf⟩
    have h := rpc__tower_flr_to_rpc_prot_id_eq order hsupported ((minor_version binding_rep).setWidth 16)
    rw [hwidth] at h
    exact h _
  · have haddress := twr_ip_lower_flrs_to_sa_eq order (bindingTower if_spec transfer_syntax_id binding_rep) _
      (transport_id binding_rep.rpc_addr.rpc_protseq_id) binding_rep.rpc_addr.sa rfl
      (upperFloors_lhs if_spec transfer_syntax_id binding_rep) (transport_id_cases _)
    rw [← hholds.1] at haddress
    exact ⟨_, haddress, hfamily.symm, sin_port_internet_sa _ _, s_addr_internet_sa _ _⟩

theorem roundTrips_of_minor_version {order other : ByteOrder} {supported supported_there : rpc_protseq_id_t → Bool}
    {i : ℕ}
    (hvector_at : if_spec.syntax_vector[i]? = some transfer_syntax_id)
    (hsupported : supported binding_rep.rpc_addr.rpc_protseq_id = true)
    (hthere : supported_there binding_rep.rpc_addr.rpc_protseq_id = true)
    (hnaf : (rpc_g_protseq_id binding_rep.rpc_addr.rpc_protseq_id).naf_id = RPC_C_NAF_ID_IP)
    (hfamily : binding_rep.rpc_addr.sa.family = RPC_C_NAF_ID_IP)
    (hminor : (minor_version binding_rep).toNat < 2 ^ 16) :
    RoundTrips order other supported supported_there if_spec transfer_syntax_id i binding_rep := by
  have hvector : if_spec.syntax_vector ≠ [] := by
    rintro hnil
    rw [hnil] at hvector_at
    cases hvector_at
  have htower := rpc__tower_from_tower_ref_eq order (bindingReference_shows if_spec binding_rep transfer_syntax_id)
  have hlength : (bindingTower if_spec transfer_syntax_id binding_rep).octets.length = 75 := by
    simp [Tower.octets, bindingTower, upperFloors, lowerFloors, uuidFloor, protocolFloor, portFloor, hostFloor, plainFloor,
      length_sin_port, length_s_addr]
  refine ⟨_, bindingReference if_spec binding_rep transfer_syntax_id, _,
    rpc__tower_ref_vec_from_binding_eq order hvector hsupported hnaf hfamily, ?_, htower, ?_, ?_⟩
  · rw [List.getElem?_map, hvector_at]
    rfl
  · rw [hlength]
    rfl
  · exact givesBack_bindingTower other ⟨rfl, by rw [hlength]; rfl⟩ hthere hnaf hfamily hminor

theorem RoundTrips.minor_version_lt {order other : ByteOrder} {supported supported_there : rpc_protseq_id_t → Bool}
    {i : ℕ}
    (h : RoundTrips order other supported supported_there if_spec transfer_syntax_id i binding_rep) :
    (minor_version binding_rep).toNat < 2 ^ 16 := by
  obtain ⟨_, _, tower, _, _, _, _, hback⟩ := h
  obtain ⟨_, _, _, floor₃, _, _, _, _, _, hprotocol, _⟩ := hback.reference
  rw [rpc__tower_flr_to_rpc_prot_id] at hprotocol
  simp only [bind, Except.bind] at hprotocol
  split at hprotocol
  · cases hprotocol
  split at hprotocol
  · cases hprotocol
  split at hprotocol
  · cases hprotocol
  have hwidth := congrArg (fun result => result.2.2.toNat) (Except.ok.inj hprotocol)
  simp only [BitVec.toNat_setWidth] at hwidth
  omega

/-- Towers round trip: the tower made for an interface, any of its transfer syntaxes, an internet protocol sequence that is
supported, a minor version of two bytes and an address says on every host what it was made of, and a well-formed tower
survives the way to a tower reference and back. -/
theorem tower_round_trip :
    (∀ (order other : ByteOrder) (supported supported_there : rpc_protseq_id_t → Bool) (if_spec : rpc_if_rep_t)
      (transfer_syntax_id : rpc_syntax_id_t) (i : ℕ) (binding_rep : rpc_binding_rep_t),
      if_spec.syntax_vector[i]? = some transfer_syntax_id →
      supported binding_rep.rpc_addr.rpc_protseq_id = true →
      supported_there binding_rep.rpc_addr.rpc_protseq_id = true →
      (rpc_g_protseq_id binding_rep.rpc_addr.rpc_protseq_id).naf_id = RPC_C_NAF_ID_IP →
      binding_rep.rpc_addr.sa.family = RPC_C_NAF_ID_IP →
      (minor_version binding_rep).toNat < 2 ^ 16 →
      RoundTrips order other supported supported_there if_spec transfer_syntax_id i binding_rep) ∧
    ∀ (order : ByteOrder) (tower : twr_t), tower.WellFormed → Reproduces order tower :=
  ⟨fun _ _ _ _ _ _ _ _ hvector_at hsupported hthere hnaf hfamily hminor =>
    roundTrips_of_minor_version hvector_at hsupported hthere hnaf hfamily hminor, fun order _ h => reproduces order h⟩

def exampleSpec : rpc_if_rep_t where
  id := dds_protocol_uuid
  vers := 0x00020001
  syntax_vector := [⟨dds_address_uuid, 2⟩, ⟨dds_protocol_uuid, 0x00050001⟩]

def exampleBinding (minor_version : BitVec 32) : rpc_binding_rep_t where
  rpc_addr := ⟨.NCADG_IP_UDP, ⟨RPC_C_NAF_ID_IP, [0, 135, 10, 0, 0, 1, 0, 0, 0, 0, 0, 0, 0, 0], rfl⟩⟩
  protocol_version := some ⟨4, minor_version⟩

theorem tower_round_trip_unlike_hosts :
    RoundTrips .big .little (fun _ => true) (fun _ => true) exampleSpec ⟨dds_protocol_uuid, 0x00050001⟩ 1 (exampleBinding 1) ∧
      Reproduces .big ⟨2, [0, 0]⟩ :=
  ⟨tower_round_trip.1 .big .little (fun _ => true) (fun _ => true) exampleSpec ⟨dds_protocol_uuid, 0x00050001⟩ 1
    (exampleBinding 1) rfl rfl rfl rfl rfl (by decide), tower_round_trip.2 .big ⟨2, [0, 0]⟩ ⟨⟨[], by decide⟩, rfl, rfl⟩⟩

/-- The cast to two bytes cuts a greater minor version off. -/
theorem minor_version_cut_off :
    exampleSpec.syntax_vector[0]? = some ⟨dds_address_uuid, 2⟩ ∧
      (rpc_g_protseq_id (exampleBinding 65536).rpc_addr.rpc_protseq_id).naf_id = RPC_C_NAF_ID_IP ∧
      (exampleBinding 65536).rpc_addr.sa.family = RPC_C_NAF_ID_IP ∧
      ¬ RoundTrips .little .little (fun _ => true) (fun _ => true) exampleSpec ⟨dds_address_uuid, 2⟩ 0 (exampleBinding 65536) :=
  ⟨rfl, rfl, rfl, fun h => absurd h.minor_version_lt (by decide)⟩

end dce.rpc
