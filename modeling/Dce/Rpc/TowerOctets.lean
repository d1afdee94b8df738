import Dce.Rpc.Tower

open lib dce.sec

set_option linter.style.nameCheck false

namespace dce.rpc

/-- What a floor says: a protocol identifier and what belongs to it, each short enough to be counted. -/
structure Floor where
  lhs : List Byte
  rhs : List Byte
  lhs_lt : lhs.length < 2 ^ 16
  rhs_lt : rhs.length < 2 ^ 16

def Floor.octets (f : Floor) : List Byte := counted f.lhs ++ counted f.rhs

/-- A tower: its floors from the top, not too many to be counted. -/
structure Tower where
  floors : List Floor
  length_lt : floors.length < 2 ^ 16

def floorOctets (floors : List Floor) : List Byte := floors.flatMap Floor.octets

def Tower.octets (t : Tower) : List Byte := lowBytes 2 t.floors.length ++ floorOctets t.floors

/-- A tower in its canonical form is well-formed when its octets are those of some floors and its length is theirs. -/
def twr_t.Holds (tower : twr_t) (t : Tower) : Prop :=
  tower.tower_octet_string = t.octets ∧ tower.tower_length.toNat = t.octets.length

/-- The floor of a tower reference for a floor, in front of other octets. -/
def Floor.reference (f : Floor) (rest : List Byte) : rpc_tower_floor_t where
  prot_id_count := BitVec.ofNat 16 f.lhs.length
  address_count := BitVec.ofNat 16 f.rhs.length
  octet_string := f.octets ++ rest

/-- A floor of a tower reference stands for a floor, whatever its octets are followed by. -/
def rpc_tower_floor_t.Shows (floor : rpc_tower_floor_t) (f : Floor) : Prop := ∃ rest, floor = f.reference rest

/-- A tower reference stands for a tower when its floors do, one by one. -/
structure rpc_tower_ref_t.Shows (tower_ref : rpc_tower_ref_t) (t : Tower) : Prop where
  count : tower_ref.count = BitVec.ofNat 16 t.floors.length
  floors : ∃ floors, tower_ref.floor = floors.map some ∧ List.Forall₂ rpc_tower_floor_t.Shows floors t.floors

/-- The references of floors that lie one behind the other. -/
def references : List Floor → List Byte → List rpc_tower_floor_t
  | [], _ => []
  | f :: fs, rest => f.reference (floorOctets fs ++ rest) :: references fs rest

@[simp] theorem length_octets (f : Floor) : f.octets.length = 2 + f.lhs.length + (2 + f.rhs.length) := by
  simp [Floor.octets]

@[simp] theorem floorOctets_nil : floorOctets [] = [] := rfl

@[simp] theorem floorOctets_cons (f : Floor) (fs : List Floor) : floorOctets (f :: fs) = f.octets ++ floorOctets fs := rfl

theorem memcpy_append {size : ℕ} {octets : List Byte} (hsize : octets.length = size) (rest : List Byte) :
    memcpy size (octets ++ rest) = .ok octets := by
  subst hsize
  simp [memcpy]

theorem memcpy_self {size : ℕ} {octets : List Byte} (hsize : octets.length = size) : memcpy size octets = .ok octets := by
  have h := memcpy_append hsize []
  rwa [List.append_nil] at h

theorem memcpy_prot_id (prot_id : Byte) (rest : List Byte) : memcpy RPC_C_TOWER_PROT_ID_SIZE (prot_id :: rest) = .ok [prot_id] := by
  have hsize : ([prot_id] : List Byte).length = RPC_C_TOWER_PROT_ID_SIZE := rfl
  exact memcpy_append hsize rest

theorem mem_protseq_ids (rpc_protseq_id : rpc_protseq_id_t) : rpc_protseq_id ∈ protseq_ids := by
  cases rpc_protseq_id <;> decide

section Host

variable (order : ByteOrder)

theorem int16_octets_resolve (v : BitVec 16) : int16_octets order (RPC_RESOLVE_ENDIAN_INT16 order v) = lowBytes 2 v.toNat :=
  order.store_little16 v

theorem memcpy_int16_append (n : ℕ) (rest : List Byte) :
    memcpy_int16 order (lowBytes 2 n ++ rest) = .ok (BitVec.ofNat 16 (order.load (lowBytes 2 n))) := by
  rw [memcpy_int16, memcpy_append (length_lowBytes 2 n)]
  rfl

@[simp] theorem resolve_load (n : ℕ) :
    RPC_RESOLVE_ENDIAN_INT16 order (BitVec.ofNat 16 (order.load (lowBytes 2 n))) = BitVec.ofNat 16 n := by
  have hlow : lowBytes 2 n = lowBytes 2 (BitVec.ofNat 16 n).toNat := by
    rw [BitVec.toNat_ofNat, show 2 ^ 16 = 256 ^ 2 from rfl, lowBytes_mod]
  rw [RPC_RESOLVE_ENDIAN_INT16, hlow, order.little16_load]

theorem toNat_ofNat_of_lt {n : ℕ} (hlt : n < 2 ^ 16) : (BitVec.ofNat 16 n).toNat = n := by
  rw [BitVec.toNat_ofNat, Nat.mod_eq_of_lt hlt]

theorem memcpy_int16_counted (bytes rest : List Byte) :
    memcpy_int16 order (counted bytes ++ rest) = .ok (BitVec.ofNat 16 (order.load (lowBytes 2 bytes.length))) := by
  rw [counted, List.append_assoc, memcpy_int16_append]

variable (f : Floor) (rest : List Byte)

theorem memcpy_int16_lhs :
    memcpy_int16 order (f.octets ++ rest) = .ok (BitVec.ofNat 16 (order.load (lowBytes 2 f.lhs.length))) := by
  rw [Floor.octets, List.append_assoc, memcpy_int16_counted]

theorem memcpy_int16_rhs :
    memcpy_int16 order ((f.octets ++ rest).drop (2 + f.lhs.length)) =
      .ok (BitVec.ofNat 16 (order.load (lowBytes 2 f.rhs.length))) := by
  rw [Floor.octets, List.append_assoc, drop_counted, memcpy_int16_counted]

theorem drop_octets : (f.octets ++ rest).drop (2 + f.lhs.length + (2 + f.rhs.length)) = rest := by
  rw [← length_octets, List.drop_left]

theorem drop_octets_two : (f.octets ++ rest).drop 2 = f.lhs ++ (counted f.rhs ++ rest) := by
  rw [Floor.octets, List.append_assoc, drop_two_counted]

@[simp] theorem prot_id_start : RPC_PROT_ID_START (f.reference rest) = f.lhs ++ (counted f.rhs ++ rest) :=
  drop_octets_two f rest

@[simp] theorem address_start : RPC_ADDRESS_START (f.reference rest) = f.rhs ++ rest := by
  have hcount : (f.reference rest).prot_id_count.toNat = f.lhs.length := toNat_ofNat_of_lt f.lhs_lt
  rw [RPC_ADDRESS_START, RPC_ADDRESS_COUNT, prot_id_start, hcount, List.drop_left]
  exact drop_two_counted f.rhs rest

theorem size_reference : (f.reference rest).size = f.octets.length := by
  have hlhs : (f.reference rest).prot_id_count.toNat = f.lhs.length := toNat_ofNat_of_lt f.lhs_lt
  have hrhs : (f.reference rest).address_count.toNat = f.rhs.length := toNat_ofNat_of_lt f.rhs_lt
  rw [rpc_tower_floor_t.size, hlhs, hrhs, length_octets, RPC_C_TOWER_FLR_LHS_COUNT_SIZE, RPC_C_TOWER_FLR_RHS_COUNT_SIZE]
  omega

theorem alloc_floors_eq (fs : List Floor) (rest : List Byte) :
    alloc_floors order fs.length (floorOctets fs ++ rest) = .ok (references fs rest) := by
  induction fs with
  | nil => rfl
  | cons f fs ih =>
    rw [List.length_cons, alloc_floors, floorOctets_cons, List.append_assoc, memcpy_int16_lhs]
    simp only [bind, Except.bind, resolve_load, toNat_ofNat_of_lt f.lhs_lt, RPC_C_TOWER_FLR_LHS_COUNT_SIZE,
      memcpy_int16_rhs, toNat_ofNat_of_lt f.rhs_lt, RPC_C_TOWER_FLR_RHS_COUNT_SIZE, drop_octets, ih]
    rfl

theorem shows_references (fs : List Floor) (rest : List Byte) :
    List.Forall₂ rpc_tower_floor_t.Shows (references fs rest) fs := by
  induction fs with
  | nil => exact .nil
  | cons f fs ih => exact .cons ⟨_, rfl⟩ ih

variable {floors : List rpc_tower_floor_t} {t : Tower}

theorem rpc__tower_to_tower_ref_eq {tower : twr_t} (h : tower.Holds t) :
    rpc__tower_to_tower_ref order tower = .ok ⟨BitVec.ofNat 16 t.floors.length, (references t.floors []).map some⟩ := by
  have hfloors : alloc_floors order t.floors.length (floorOctets t.floors) = .ok (references t.floors []) := by
    have hall := alloc_floors_eq order t.floors []
    rwa [List.append_nil] at hall
  have hdrop : t.octets.drop RPC_C_TOWER_FLR_COUNT_SIZE = floorOctets t.floors :=
    List.drop_left' (length_lowBytes 2 t.floors.length)
  have hcount : memcpy_int16 order t.octets = .ok (BitVec.ofNat 16 (order.load (lowBytes 2 t.floors.length))) :=
    memcpy_int16_append order t.floors.length (floorOctets t.floors)
  rw [rpc__tower_to_tower_ref, h.1, hcount]
  simp only [bind, Except.bind, resolve_load, toNat_ofNat_of_lt t.length_lt, rpc__tower_ref_alloc, hdrop, Nat.sub_self,
    Nat.sub_zero, hfloors, Nat.zero_min]
  rfl

theorem mapM_floor_at (floors : List rpc_tower_floor_t) : (floors.map some).mapM floor_at = .ok floors := by
  induction floors with
  | nil => rfl
  | cons floor floors ih =>
    rw [List.map_cons, List.mapM_cons, ih]
    rfl

theorem tower_floors_some {count : BitVec 16} (hcount : count.toNat = floors.length) :
    tower_floors ⟨count, floors.map some⟩ = .ok floors := by
  have hlength : count.toNat = (floors.map some).length := by rw [hcount, List.length_map]
  rw [tower_floors, if_pos hlength.le, hlength, List.take_length, mapM_floor_at]

theorem rpc_tower_ref_t.Shows.tower_floors {tower_ref : rpc_tower_ref_t} (h : tower_ref.Shows t) :
    ∃ floors, rpc.tower_floors tower_ref = .ok floors ∧ List.Forall₂ rpc_tower_floor_t.Shows floors t.floors := by
  obtain ⟨count, floor⟩ := tower_ref
  obtain ⟨floors, rfl, hshows⟩ := h.floors
  refine ⟨floors, tower_floors_some ?_, hshows⟩
  rw [show count = BitVec.ofNat 16 t.floors.length from h.count, toNat_ofNat_of_lt t.length_lt, hshows.length_eq]

theorem memcpy_reference : memcpy (f.reference rest).size (f.reference rest).octet_string = .ok f.octets :=
  memcpy_append (size_reference f rest).symm rest

theorem copied_floors {fs : List Floor}
    (h : List.Forall₂ rpc_tower_floor_t.Shows floors fs) :
    floors.mapM (fun floor => memcpy floor.size floor.octet_string) = .ok (fs.map Floor.octets) := by
  induction h with
  | nil => rfl
  | cons hfloor _ ih =>
    obtain ⟨rest, rfl⟩ := hfloor
    rw [List.mapM_cons, ih, memcpy_reference]
    rfl

theorem summed_floors {fs : List Floor}
    (h : List.Forall₂ rpc_tower_floor_t.Shows floors fs) (length : BitVec 32) :
    floors.foldl (fun octet_length floor => octet_length + BitVec.ofNat 32 floor.size) length =
      length + BitVec.ofNat 32 (floorOctets fs).length := by
  induction h generalizing length with
  | nil => simp
  | cons hfloor _ ih =>
    obtain ⟨rest, rfl⟩ := hfloor
    rw [List.foldl_cons, ih, size_reference, floorOctets_cons, List.length_append, BitVec.ofNat_add, BitVec.add_assoc]

theorem rpc__tower_from_tower_ref_eq {tower_ref : rpc_tower_ref_t} (h : tower_ref.Shows t) :
    rpc__tower_from_tower_ref order tower_ref = .ok ⟨BitVec.ofNat 32 t.octets.length, t.octets⟩ := by
  obtain ⟨floors, hfloors, hshows⟩ := h.tower_floors
  have hoctets : int16_octets order (RPC_RESOLVE_ENDIAN_INT16 order tower_ref.count) ++ (t.floors.map Floor.octets).flatten =
      t.octets := by
    rw [int16_octets_resolve, h.count, toNat_ofNat_of_lt t.length_lt]
    rfl
  have hlength : (0 : BitVec 32) + BitVec.ofNat 32 (floorOctets t.floors).length + BitVec.ofNat 32 RPC_C_TOWER_FLR_COUNT_SIZE =
      BitVec.ofNat 32 t.octets.length := by
    rw [show (0 : BitVec 32) = 0#32 from rfl, BitVec.zero_add, ← BitVec.ofNat_add, Tower.octets, List.length_append, length_lowBytes, RPC_C_TOWER_FLR_COUNT_SIZE,
      Nat.add_comm]
  rw [rpc__tower_from_tower_ref, hfloors]
  simp only [bind, Except.bind, summed_floors hshows, copied_floors hshows, hoctets, hlength]
  rfl

end Host

end dce.rpc
