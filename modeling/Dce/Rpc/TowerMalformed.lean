import Dce.Rpc.TowerOctets

open lib dce.sec

set_option linter.style.nameCheck false

namespace dce.rpc

/-- A tower as it is received: as many octets as its length says. -/
structure ReceivedTower extends twr_t where
  length_eq : tower_octet_string.length = tower_length.toNat

/-- The floors of a tower, as many as it counts, lie among its octets. -/
def ReceivedTower.Fits (tower : ReceivedTower) : Prop := ∃ t rest, tower.tower_octet_string = Tower.octets t ++ rest

theorem count_or_short (octets : List Byte) : octets.length < 2 ∨ ∃ n rest, n < 2 ^ 16 ∧ octets = lowBytes 2 n ++ rest := by
  by_cases hshort : octets.length < 2
  · exact .inl hshort
  · have htake : (octets.take 2).length = 2 := List.length_take_of_le (Nat.not_lt.mp hshort)
    have hlt := ofLowBytes_lt (octets.take 2)
    have hlow := lowBytes_ofLowBytes (octets.take 2)
    rw [htake] at hlt hlow
    exact .inr ⟨ofLowBytes (octets.take 2), octets.drop 2, hlt, by rw [hlow, List.take_append_drop]⟩

def rpc_tower_floor_t.Fits (floor : rpc_tower_floor_t) : Prop := floor.size ≤ floor.octet_string.length

/-- A floor for a UUID: its identifier has the prefix and room for the UUID and the major version, its address is the minor
version. -/
structure rpc_tower_floor_t.ForUuid (floor : rpc_tower_floor_t) : Prop where
  fits : floor.Fits
  prefix_id : (RPC_PROT_ID_START floor).head? = some RPC_C_PROT_ID_PREFIX
  prot_id : RPC_C_TOWER_PROT_ID_SIZE + RPC_C_TOWER_UUID_SIZE + RPC_C_TOWER_VERSION_SIZE ≤ floor.prot_id_count.toNat
  address : floor.address_count.toNat = RPC_C_TOWER_VERSION_SIZE

/-- A floor for an RPC protocol: its identifier is there, its address is the minor version. -/
structure rpc_tower_floor_t.ForProtocol (floor : rpc_tower_floor_t) : Prop where
  fits : floor.Fits
  prot_id : RPC_C_TOWER_PROT_ID_SIZE ≤ floor.prot_id_count.toNat
  address : floor.address_count.toNat = RPC_C_TOWER_VERSION_SIZE

section Host

variable (order : ByteOrder)

variable {floor : rpc_tower_floor_t} {octets : List Byte}

theorem memcpy_short {size : ℕ} (hshort : octets.length < size) : memcpy size octets = .error .undefined :=
  if_neg (Nat.not_le.mpr hshort)

theorem memcpy_int16_short (hshort : octets.length < 2) : memcpy_int16 order octets = .error .undefined := by
  rw [memcpy_int16, memcpy_short hshort]
  rfl

/-- A routine that reads past the end or succeeds, but reports nothing. -/
def NeverReports {α : Type} (outcome : Except tower_status_t α) : Prop := outcome = .error .undefined ∨ ∃ a, outcome = .ok a

theorem neverReports_pure {α : Type} (a : α) : NeverReports (pure a) := .inr ⟨a, rfl⟩

theorem NeverReports.bind {α β : Type} {outcome : Except tower_status_t α} (h : NeverReports outcome)
    {next : α → Except tower_status_t β} (hnext : ∀ a, NeverReports (next a)) : NeverReports (outcome >>= next) := by
  obtain rfl | ⟨a, rfl⟩ := h
  · exact .inl rfl
  · exact hnext a

theorem neverReports_memcpy (size : ℕ) (octets : List Byte) : NeverReports (memcpy size octets) := by
  rw [memcpy]
  split_ifs
  · exact .inr ⟨_, rfl⟩
  · exact .inl rfl

theorem neverReports_memcpy_int16 (octets : List Byte) : NeverReports (memcpy_int16 order octets) :=
  (neverReports_memcpy 2 octets).bind fun _ => neverReports_pure _

theorem neverReports_memcpy_uuid (octets : List Byte) : NeverReports (memcpy_uuid order octets) := by
  rw [memcpy_uuid]
  split_ifs
  · exact .inr ⟨_, rfl⟩
  · exact .inl rfl

theorem neverReports_alloc_floors (count : ℕ) (octets : List Byte) : NeverReports (alloc_floors order count octets) := by
  induction count generalizing octets with
  | zero => exact .inr ⟨[], rfl⟩
  | succ count ih =>
    refine (neverReports_memcpy_int16 order _).bind fun _ => (neverReports_memcpy_int16 order _).bind fun _ => ?_
    exact (ih _).bind fun _ => neverReports_pure _

theorem neverReports_to_tower_ref (tower : twr_t) : NeverReports (rpc__tower_to_tower_ref order tower) :=
  (neverReports_memcpy_int16 order _).bind fun _ =>
    (neverReports_alloc_floors order _ _).bind fun _ => neverReports_pure _

theorem rpc__tower_to_tower_ref_alloc {tower : ReceivedTower} {n : ℕ} {body : List Byte} (hn : n < 2 ^ 16)
    (hoctets : tower.tower_octet_string = lowBytes 2 n ++ body) :
    rpc__tower_to_tower_ref order tower.totwr_t =
      (alloc_floors order n body).map fun floors => ⟨BitVec.ofNat 16 n, floors.map some⟩ := by
  have hdrop : (lowBytes 2 n ++ body).drop RPC_C_TOWER_FLR_COUNT_SIZE = body := List.drop_left' (length_lowBytes 2 n)
  rw [rpc__tower_to_tower_ref, hoctets, memcpy_int16_append]
  simp only [bind, Except.bind, resolve_load, toNat_ofNat_of_lt hn, rpc__tower_ref_alloc, Nat.sub_self, Nat.sub_zero, hdrop,
    Nat.zero_min, List.replicate_zero, List.nil_append]
  cases alloc_floors order n body <;> rfl

theorem rpc__tower_to_tower_ref_fits {tower : ReceivedTower} (hfits : tower.Fits) :
    ∃ tower_ref, rpc__tower_to_tower_ref order tower.totwr_t = .ok tower_ref := by
  obtain ⟨t, rest, hoctets⟩ := hfits
  rw [Tower.octets, List.append_assoc] at hoctets
  rw [rpc__tower_to_tower_ref_alloc order t.length_lt hoctets, alloc_floors_eq]
  exact ⟨_, rfl⟩

theorem length_prot_id_start (hfits : floor.Fits) :
    floor.prot_id_count.toNat + 2 + floor.address_count.toNat ≤ (RPC_PROT_ID_START floor).length := by
  rw [rpc_tower_floor_t.Fits, rpc_tower_floor_t.size, RPC_C_TOWER_FLR_LHS_COUNT_SIZE, RPC_C_TOWER_FLR_RHS_COUNT_SIZE] at hfits
  rw [RPC_PROT_ID_START, List.length_drop, RPC_C_TOWER_FLR_LHS_COUNT_SIZE]
  omega

theorem memcpy_int16_long (hlong : 2 ≤ octets.length) : ∃ v, memcpy_int16 order octets = .ok v := by
  rw [memcpy_int16, memcpy, if_pos hlong]
  exact ⟨_, rfl⟩

theorem address_int16_fits (hfits : floor.Fits)
    (haddress : floor.address_count.toNat = RPC_C_TOWER_VERSION_SIZE) : ∃ v, address_int16 order floor = .ok v := by
  have hlong := length_prot_id_start hfits
  rw [haddress, RPC_C_TOWER_VERSION_SIZE] at hlong
  rw [address_int16, if_pos (show floor.address_count.toNat = 2 from haddress)]
  refine memcpy_int16_long order ?_
  rw [RPC_ADDRESS_START, RPC_ADDRESS_COUNT, List.length_drop, List.length_drop, RPC_C_TOWER_FLR_RHS_COUNT_SIZE]
  omega

theorem neverReports_address_int16 (floor : rpc_tower_floor_t) : NeverReports (address_int16 order floor) := by
  rw [address_int16]
  split_ifs
  · exact neverReports_memcpy_int16 order _
  · exact .inl rfl

theorem neverReports_id_to_uuid (prot_id : List Byte) : NeverReports (rpc__tower_flr_id_to_uuid order prot_id) :=
  (neverReports_memcpy _ _).bind fun _ => (neverReports_memcpy_uuid order _).bind fun _ =>
    (neverReports_memcpy_int16 order _).bind fun _ => neverReports_pure _

theorem neverReports_to_uuid (floor : rpc_tower_floor_t) : NeverReports (rpc__tower_flr_to_uuid order floor) :=
  (neverReports_id_to_uuid order _).bind fun _ => (neverReports_address_int16 order floor).bind fun _ => neverReports_pure _

theorem id_to_uuid_long {prot_id : List Byte} (hlong : 19 ≤ prot_id.length) :
    ∃ id, rpc__tower_flr_id_to_uuid order prot_id = .ok id := by
  have hprefix : memcpy RPC_C_TOWER_PROT_ID_SIZE prot_id = .ok (prot_id.take RPC_C_TOWER_PROT_ID_SIZE) :=
    if_pos (by rw [RPC_C_TOWER_PROT_ID_SIZE]; omega)
  have huuid : ∃ uuid, memcpy_uuid order (prot_id.drop RPC_C_TOWER_PROT_ID_SIZE) = .ok uuid :=
    ⟨_, dif_pos (by rw [List.length_drop, RPC_C_TOWER_PROT_ID_SIZE, RPC_C_TOWER_UUID_SIZE]; omega)⟩
  obtain ⟨uuid, huuid⟩ := huuid
  obtain ⟨version, hversion⟩ := memcpy_int16_long order
    (by rw [List.length_drop, List.length_drop, RPC_C_TOWER_PROT_ID_SIZE, RPC_C_TOWER_UUID_SIZE]; omega :
      2 ≤ ((prot_id.drop RPC_C_TOWER_PROT_ID_SIZE).drop RPC_C_TOWER_UUID_SIZE).length)
  rw [rpc__tower_flr_id_to_uuid, hprefix]
  simp only [bind, Except.bind, huuid, hversion]
  exact ⟨_, rfl⟩

theorem to_uuid_forUuid (h : floor.ForUuid) :
    ∃ decoded, rpc__tower_flr_to_uuid order floor = .ok decoded := by
  have hlong := length_prot_id_start h.fits
  have hprot_id := h.prot_id
  rw [RPC_C_TOWER_PROT_ID_SIZE, RPC_C_TOWER_UUID_SIZE, RPC_C_TOWER_VERSION_SIZE] at hprot_id
  obtain ⟨id, hid⟩ := id_to_uuid_long order (by omega : 19 ≤ (RPC_PROT_ID_START floor).length)
  obtain ⟨version, hversion⟩ := address_int16_fits order h.fits h.address
  rw [rpc__tower_flr_to_uuid, hid]
  simp only [bind, Except.bind, hversion]
  exact ⟨_, rfl⟩

theorem find_rpc_prot_id_cases (supported : rpc_protseq_id_t → Bool) (prot_id : Byte) (protseq_ids : List rpc_protseq_id_t) :
    find_rpc_prot_id supported prot_id protseq_ids = .error .rpc_s_invalid_rpc_protid ∨
      ∃ found, find_rpc_prot_id supported prot_id protseq_ids = .ok found := by
  induction protseq_ids with
  | nil => exact .inl rfl
  | cons protseq_id rest ih =>
    rw [find_rpc_prot_id, rpc__network_inq_prot_version]
    by_cases hsupported : supported protseq_id = true
    · simp only [hsupported, Bool.not_true, Bool.false_eq_true, ↓reduceIte]
      split_ifs
      · exact .inr ⟨_, rfl⟩
      · exact ih
    · simpa only [hsupported, Bool.not_false, ↓reduceIte] using ih

end Host

end dce.rpc
