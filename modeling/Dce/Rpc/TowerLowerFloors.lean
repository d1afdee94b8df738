import Dce.Rpc.TowerMalformed

open lib dce.sec

namespace dce.rpc

def IsPort (lhs : List Byte) : Prop := lhs = [TWR_C_FLR_PROT_ID_TCP] ∨ lhs = [TWR_C_FLR_PROT_ID_UDP]

/-- So many floors can be skipped, up to the port's if that is among them, behind whose identifier `P` holds. -/
def UpperFit (P : List Byte → Prop) : ℕ → List Byte → Prop
  | 0, _ => True
  | count + 1, octets =>
    (∃ lhs rest, IsPort lhs ∧ octets = counted lhs ++ rest ∧ P rest) ∨
      ∃ (lhs : List Byte) (r : ℕ) (rest : List Byte), lhs.length < 2 ^ 16 ∧ r < 2 ^ 16 ∧ ¬ IsPort lhs ∧
        octets = counted lhs ++ (lowBytes 2 r ++ rest) ∧ UpperFit P count (rest.drop r)

/-- The host's floor: what its identifier is read from is there, and if it is the right one then so is the host, and fits. -/
def HostFit (portFits : Prop) (octets : List Byte) : Prop :=
  ∃ l id rest, l < 2 ^ 16 ∧ octets = lowBytes 2 l ++ id :: rest ∧
    (l = 1 ∧ id = TWR_C_FLR_PROT_ID_IP →
      portFits ∧ ∃ host rest', host.length ≤ TWR_C_IP_ADDR_SIZE ∧ rest = counted host ++ rest')

/-- The port, of no more bytes than the limit, and behind it the host's floor. -/
def PortFit (limit : ℕ) (octets : List Byte) : Prop :=
  ∃ port rest, port.length ≤ limit ∧ octets = counted port ++ rest ∧ HostFit (port.length ≤ TWR_C_IP_PORT_SIZE) rest

def LowerFloorsFit (limit : ℕ) (octets : List Byte) : Prop :=
  ∃ count body, count < 2 ^ 16 ∧ count ≠ 0 ∧ octets = lowBytes 2 count ++ body ∧ UpperFit (PortFit limit) count body

theorem lowBytes_append_inj {m n : ℕ} {a b : List Byte} (hm : m < 2 ^ 16) (hn : n < 2 ^ 16)
    (h : lowBytes 2 m ++ a = lowBytes 2 n ++ b) : m = n ∧ a = b := by
  obtain ⟨hlow, hrest⟩ := List.append_inj h (by rw [length_lowBytes, length_lowBytes])
  have hvalue := congrArg ofLowBytes hlow
  rw [ofLowBytes_lowBytes, ofLowBytes_lowBytes] at hvalue
  exact ⟨by omega, hrest⟩

theorem counted_append_inj {n : ℕ} {bytes a b : List Byte} (hn : n < 2 ^ 16) (hlt : bytes.length < 2 ^ 16)
    (h : lowBytes 2 n ++ a = counted bytes ++ b) : n = bytes.length ∧ a = bytes ++ b := by
  rw [counted, List.append_assoc] at h
  exact lowBytes_append_inj hn hlt h

theorem IsPort.length {lhs : List Byte} (h : IsPort lhs) : lhs.length = 1 := by
  obtain rfl | rfl := h <;> rfl

theorem upperFit_succ_iff {P : List Byte → Prop} {count l : ℕ} {rest : List Byte} (hl : l < 2 ^ 16) :
    UpperFit P (count + 1) (lowBytes 2 l ++ rest) ↔
      (∃ id rest', l = 1 ∧ IsPort [id] ∧ rest = id :: rest' ∧ P rest') ∨
        ∃ (lhs : List Byte) (r : ℕ) (rest' : List Byte), lhs.length = l ∧ r < 2 ^ 16 ∧ ¬ IsPort lhs ∧
          rest = lhs ++ (lowBytes 2 r ++ rest') ∧ UpperFit P count (rest'.drop r) := by
  rw [UpperFit]
  constructor
  · rintro (⟨lhs, rest', hport, heq, hP⟩ | ⟨lhs, r, rest', hlhs, hr, hport, heq, hfit⟩)
    · have hone := hport.length
      obtain ⟨rfl, rfl⟩ := counted_append_inj hl (by omega) heq
      obtain ⟨id, rfl⟩ := List.length_eq_one_iff.mp hone
      exact .inl ⟨id, rest', rfl, hport, rfl, hP⟩
    · obtain ⟨rfl, rfl⟩ := counted_append_inj hl hlhs heq
      exact .inr ⟨lhs, r, rest', rfl, hr, hport, rfl, hfit⟩
  · rintro (⟨id, rest', rfl, hport, rfl, hP⟩ | ⟨lhs, r, rest', rfl, hr, hport, rfl, hfit⟩)
    · exact .inl ⟨[id], rest', hport, rfl, hP⟩
    · exact .inr ⟨lhs, r, rest', hl, hr, hport, by rw [counted, List.append_assoc], hfit⟩

theorem UpperFit.length {P : List Byte → Prop} {count : ℕ} {octets : List Byte} (h : UpperFit P (count + 1) octets) :
    3 ≤ octets.length := by
  obtain ⟨lhs, rest, hport, rfl, -⟩ | ⟨lhs, r, rest, -, -, -, rfl, -⟩ := h
  · rw [List.length_append, length_counted, hport.length]
    omega
  · rw [List.length_append, length_counted, List.length_append, length_lowBytes]
    omega

section Host

variable (order : ByteOrder)

theorem find_ip_floors_cases (count : ℕ) (octets : List Byte) :
    (find_ip_floors order count octets = .error .undefined ∧ ∀ P, ¬ UpperFit P count octets) ∨
      (find_ip_floors order count octets = .error .twr_s_unknown_tower ∧ ∀ P, UpperFit P count octets) ∨
        ∃ lower, find_ip_floors order count octets = .ok lower ∧ ∀ P, UpperFit P count octets ↔ P lower := by
  induction count generalizing octets with
  | zero => exact .inr (.inl ⟨rfl, fun P => trivial⟩)
  | succ count ih =>
    rw [find_ip_floors]
    obtain hshort | ⟨l, rest, hl, rfl⟩ := count_or_short octets
    · rw [memcpy_int16_short order hshort]
      refine .inl ⟨rfl, fun P h => ?_⟩
      have hlong := h.length
      omega
    have hdrop : (lowBytes 2 l ++ rest).drop 2 = rest := List.drop_left' (length_lowBytes 2 l)
    have hdrop_lhs : (lowBytes 2 l ++ rest).drop (2 + l) = rest.drop l := by rw [← List.drop_drop, hdrop]
    rw [memcpy_int16_append]
    simp only [bind, Except.bind, resolve_load, toNat_ofNat_of_lt hl, TWR_C_TOWER_FLR_LHS_COUNT_SIZE,
      RPC_C_TOWER_FLR_LHS_COUNT_SIZE, hdrop, hdrop_lhs]
    cases rest with
    | nil =>
      refine .inl ⟨rfl, fun P h => ?_⟩
      have hlong := h.length
      rw [List.append_nil, length_lowBytes] at hlong
      omega
    | cons id rest =>
    have hid : memcpy TWR_C_TOWER_PROT_ID_SIZE (id :: rest) = .ok [id] := memcpy_prot_id id rest
    simp only [hid]
    by_cases hport : l = TWR_C_TOWER_PROT_ID_SIZE ∧ ([id] = [TWR_C_FLR_PROT_ID_TCP] ∨ [id] = [TWR_C_FLR_PROT_ID_UDP])
    · rw [if_pos hport]
      obtain ⟨hone, hport⟩ := hport
      refine .inr (.inr ⟨rest, by rw [hone]; rfl, fun P => ?_⟩)
      rw [upperFit_succ_iff hl]
      constructor
      · rintro (⟨id', rest', -, -, heq, hP⟩ | ⟨lhs, r, rest', hlhs, -, hother, heq, -⟩)
        · obtain ⟨rfl, rfl⟩ := List.cons.inj heq
          exact hP
        · obtain ⟨id', rfl⟩ := List.length_eq_one_iff.mp (hlhs.trans hone)
          obtain ⟨rfl, -⟩ := List.cons.inj heq
          exact absurd hport hother
      · exact fun hP => .inl ⟨id, rest, hone, hport, rfl, hP⟩
    rw [if_neg hport]
    have hskip : ∀ P, UpperFit P (count + 1) (lowBytes 2 l ++ id :: rest) ↔
        ∃ (lhs : List Byte) (r : ℕ) (rest' : List Byte), lhs.length = l ∧ r < 2 ^ 16 ∧ ¬ IsPort lhs ∧
          id :: rest = lhs ++ (lowBytes 2 r ++ rest') ∧ UpperFit P count (rest'.drop r) := by
      intro P
      rw [upperFit_succ_iff hl, or_iff_right]
      rintro ⟨id', rest', hone, hport', heq, -⟩
      obtain ⟨rfl, -⟩ := List.cons.inj heq
      exact hport ⟨hone, hport'⟩
    obtain hshort | ⟨r, rest', hr, hrest⟩ := count_or_short ((id :: rest).drop l)
    · rw [memcpy_int16_short order hshort]
      refine .inl ⟨rfl, fun P h => ?_⟩
      obtain ⟨lhs, r, rest', rfl, -, -, heq, -⟩ := (hskip P).mp h
      rw [heq, List.drop_left, List.length_append, length_lowBytes] at hshort
      omega
    rw [hrest, memcpy_int16_append]
    have hnext : (lowBytes 2 l ++ id :: rest).drop (2 + l + (2 + r)) = rest'.drop r := by
      rw [← List.drop_drop, hdrop_lhs, hrest, ← List.drop_drop, List.drop_left' (length_lowBytes 2 r)]
    simp only [resolve_load, toNat_ofNat_of_lt hr, TWR_C_TOWER_FLR_RHS_COUNT_SIZE, RPC_C_TOWER_FLR_RHS_COUNT_SIZE, hnext]
    have hnext_iff : ∀ P, UpperFit P (count + 1) (lowBytes 2 l ++ id :: rest) ↔ UpperFit P count (rest'.drop r) := by
      intro P
      rw [hskip P]
      constructor
      · rintro ⟨lhs, r', rest'', rfl, hr', -, heq, hfit⟩
        rw [heq, List.drop_left] at hrest
        obtain ⟨rfl, rfl⟩ := lowBytes_append_inj hr' hr hrest
        exact hfit
      · intro hfit
        have hlength := congrArg List.length hrest
        rw [List.length_drop, List.length_append, length_lowBytes] at hlength
        have hlhs : ((id :: rest).take l).length = l := List.length_take_of_le (by omega)
        refine ⟨(id :: rest).take l, r, rest', hlhs, hr, fun hport' => ?_, by rw [← hrest, List.take_append_drop], hfit⟩
        have hone : l = 1 := hlhs.symm.trans hport'.length
        subst hone
        exact hport ⟨rfl, hport'⟩
    simp only [hnext_iff]
    exact ih (rest'.drop r)

/-- What `twr_ip_lower_flrs_to_sa` does behind the identifier of the port's floor. -/
def port_to_sa (tower : List Byte) : Except tower_status_t sockaddr_t := do
  let addr_size := RPC_RESOLVE_ENDIAN_INT16 order (← memcpy_int16 order tower)
  let tower := tower.drop RPC_C_TOWER_FLR_RHS_COUNT_SIZE
  let sa ← memcpy_sa 0 (← memcpy addr_size.toNat tower) null_sa
  let tower := tower.drop addr_size.toNat
  let id_size := RPC_RESOLVE_ENDIAN_INT16 order (← memcpy_int16 order tower)
  let tower := tower.drop TWR_C_TOWER_FLR_LHS_COUNT_SIZE
  let id ← memcpy TWR_C_TOWER_PROT_ID_SIZE tower
  let tower := tower.drop id_size.toNat
  if id_size.toNat ≠ TWR_C_TOWER_PROT_ID_SIZE ∨ id ≠ [TWR_C_FLR_PROT_ID_IP] then .error .twr_s_unknown_tower
  else
    let addr_size := RPC_RESOLVE_ENDIAN_INT16 order (← memcpy_int16 order tower)
    let tower := tower.drop RPC_C_TOWER_FLR_RHS_COUNT_SIZE
    memcpy_sa 2 (← memcpy addr_size.toNat tower) sa

theorem twr_ip_lower_flrs_to_sa_count {count : ℕ} {body : List Byte} (hcount : count < 2 ^ 16) :
    twr_ip_lower_flrs_to_sa order (lowBytes 2 count ++ body) =
      if count = 0 then .error .undefined else find_ip_floors order count body >>= port_to_sa order := by
  have hdrop : (lowBytes 2 count ++ body).drop TWR_C_TOWER_FLR_COUNT_SIZE = body := List.drop_left' (length_lowBytes 2 count)
  rw [twr_ip_lower_flrs_to_sa, memcpy_int16_append]
  simp only [bind, Except.bind, resolve_load, toNat_ofNat_of_lt hcount, hdrop]
  rfl

theorem bytes_or_short (n : ℕ) (octets : List Byte) : octets.length < n ∨ ∃ bytes rest, bytes.length = n ∧ octets = bytes ++ rest := by
  by_cases hshort : octets.length < n
  · exact .inl hshort
  · exact .inr ⟨octets.take n, octets.drop n, List.length_take_of_le (Nat.not_lt.mp hshort), (List.take_append_drop n octets).symm⟩

theorem portFit_iff {limit : ℕ} {port rest : List Byte} (hport : port.length < 2 ^ 16) (hlimit : limit < 2 ^ 16) :
    PortFit limit (lowBytes 2 port.length ++ (port ++ rest)) ↔
      port.length ≤ limit ∧ HostFit (port.length ≤ TWR_C_IP_PORT_SIZE) rest := by
  constructor
  · rintro ⟨port', rest', hle, heq, hhost⟩
    obtain ⟨hlength, happend⟩ := counted_append_inj hport (by omega) heq
    obtain ⟨rfl, rfl⟩ := List.append_inj happend hlength
    exact ⟨hle, hhost⟩
  · rintro ⟨hle, hhost⟩
    exact ⟨port, rest, hle, by rw [counted, List.append_assoc], hhost⟩

theorem hostFit_iff {portFits : Prop} {l : ℕ} {id : Byte} {rest : List Byte} (hl : l < 2 ^ 16) :
    HostFit portFits (lowBytes 2 l ++ id :: rest) ↔ (l = 1 ∧ id = TWR_C_FLR_PROT_ID_IP →
      portFits ∧ ∃ host rest', host.length ≤ TWR_C_IP_ADDR_SIZE ∧ rest = counted host ++ rest') := by
  constructor
  · rintro ⟨l', id', rest', hl', heq, h⟩
    obtain ⟨rfl, happend⟩ := lowBytes_append_inj hl hl' heq
    obtain ⟨rfl, rfl⟩ := List.cons.inj happend
    exact h
  · exact fun h => ⟨l, id, rest, hl, rfl, h⟩

theorem HostFit.length {portFits : Prop} {octets : List Byte} (h : HostFit portFits octets) : 3 ≤ octets.length := by
  obtain ⟨l, id, rest, -, rfl, -⟩ := h
  rw [List.length_append, length_lowBytes, List.length_cons]
  omega

theorem memcpy_sa_fits {offset : ℕ} {address : List Byte} (sa : sockaddr_t) (hfits : offset + address.length ≤ 14) :
    ∃ filled, memcpy_sa offset address sa = .ok filled := by
  rw [memcpy_sa, dif_pos hfits]
  exact ⟨_, rfl⟩

theorem memcpy_sa_long {offset : ℕ} {address : List Byte} (sa : sockaddr_t) (hlong : ¬ offset + address.length ≤ 14) :
    memcpy_sa offset address sa = .error .undefined := by
  rw [memcpy_sa, dif_neg hlong]

theorem port_to_sa_cases (lower : List Byte) :
    (port_to_sa order lower = .error .undefined ∧ ¬ PortFit 14 lower) ∨
      (port_to_sa order lower = .error .twr_s_unknown_tower ∧ PortFit 14 lower) ∨
        (∃ sa, port_to_sa order lower = .ok sa) ∧ (PortFit 14 lower ↔ PortFit TWR_C_IP_PORT_SIZE lower) := by
  rw [port_to_sa]
  -- the port
  obtain hshort | ⟨p, rest, hp, rfl⟩ := count_or_short lower
  · rw [memcpy_int16_short order hshort]
    refine .inl ⟨rfl, ?_⟩
    rintro ⟨port, rest, -, rfl, -⟩
    rw [List.length_append, length_counted] at hshort
    omega
  have hdrop : (lowBytes 2 p ++ rest).drop 2 = rest := List.drop_left' (length_lowBytes 2 p)
  rw [memcpy_int16_append]
  simp only [bind, Except.bind, resolve_load, toNat_ofNat_of_lt hp, RPC_C_TOWER_FLR_RHS_COUNT_SIZE,
    TWR_C_TOWER_FLR_LHS_COUNT_SIZE, RPC_C_TOWER_FLR_LHS_COUNT_SIZE, hdrop]
  obtain hshort | ⟨port, rest, rfl, rfl⟩ := bytes_or_short p rest
  · rw [memcpy_short hshort]
    refine .inl ⟨rfl, ?_⟩
    rintro ⟨port, rest', hle, heq, -⟩
    obtain ⟨rfl, rfl⟩ := counted_append_inj hp (by omega) heq
    rw [List.length_append] at hshort
    omega
  rw [memcpy_append rfl, portFit_iff hp (by norm_num), portFit_iff hp (by norm_num [TWR_C_IP_PORT_SIZE])]
  by_cases hlimit : port.length ≤ 14
  swap
  · have hlong : ¬ 0 + port.length ≤ 14 := by omega
    simp only [memcpy_sa_long null_sa hlong]
    exact .inl ⟨trivial, fun h => hlimit h.1⟩
  have hfits : 0 + port.length ≤ 14 := by omega
  obtain ⟨filled, hfilled⟩ := memcpy_sa_fits null_sa hfits
  simp only [hfilled, List.drop_left]
  -- the host's identifier
  obtain hshort | ⟨l, rest, hl, rfl⟩ := count_or_short rest
  · rw [memcpy_int16_short order hshort]
    refine .inl ⟨rfl, fun h => ?_⟩
    have hlong := h.2.length
    omega
  have hdrop : (lowBytes 2 l ++ rest).drop 2 = rest := List.drop_left' (length_lowBytes 2 l)
  rw [memcpy_int16_append]
  simp only [resolve_load, toNat_ofNat_of_lt hl, hdrop]
  cases rest with
  | nil =>
    refine .inl ⟨rfl, fun h => ?_⟩
    have hlong := h.2.length
    rw [List.append_nil, length_lowBytes] at hlong
    omega
  | cons id rest =>
  have hid : memcpy TWR_C_TOWER_PROT_ID_SIZE (id :: rest) = .ok [id] := memcpy_prot_id id rest
  simp only [hid, hostFit_iff hl]
  by_cases hhost : l = 1 ∧ id = TWR_C_FLR_PROT_ID_IP
  swap
  · have hother : l ≠ TWR_C_TOWER_PROT_ID_SIZE ∨ [id] ≠ [TWR_C_FLR_PROT_ID_IP] := by
      obtain h | h := not_and_or.mp hhost
      · exact .inl h
      · exact .inr fun heq => h (List.cons.inj heq).1
    rw [if_pos hother]
    exact .inr (.inl ⟨rfl, hlimit, fun h => absurd h hhost⟩)
  have hsame : ¬ (l ≠ TWR_C_TOWER_PROT_ID_SIZE ∨ [id] ≠ [TWR_C_FLR_PROT_ID_IP]) := by
    rintro (h | h)
    · exact h hhost.1
    · exact h (congrArg (· :: []) hhost.2)
  have hrest : (id :: rest).drop l = rest := by rw [hhost.1]; rfl
  rw [if_neg hsame, hrest]
  simp only [hhost, and_self, true_imp_iff]
  -- the host
  obtain hshort | ⟨h, rest, hh, rfl⟩ := count_or_short rest
  · rw [memcpy_int16_short order hshort]
    refine .inl ⟨rfl, ?_⟩
    rintro ⟨-, -, host, rest', -, rfl⟩
    rw [List.length_append, length_counted] at hshort
    omega
  have hdrop : (lowBytes 2 h ++ rest).drop 2 = rest := List.drop_left' (length_lowBytes 2 h)
  rw [memcpy_int16_append]
  simp only [resolve_load, toNat_ofNat_of_lt hh, hdrop]
  obtain hshort | ⟨host, rest, rfl, rfl⟩ := bytes_or_short h rest
  · rw [memcpy_short hshort]
    refine .inl ⟨rfl, ?_⟩
    rintro ⟨-, -, host, rest', hle, heq⟩
    obtain ⟨rfl, rfl⟩ := counted_append_inj hh (by rw [TWR_C_IP_ADDR_SIZE] at hle; omega) heq
    rw [List.length_append] at hshort
    omega
  rw [memcpy_append rfl]
  by_cases hlimit' : 2 + host.length ≤ 14
  · obtain ⟨sa, hsa⟩ := memcpy_sa_fits filled hlimit'
    simp only [hsa]
    refine .inr (.inr ⟨⟨sa, rfl⟩, ?_⟩)
    tauto
  · simp only [memcpy_sa_long filled hlimit']
    refine .inl ⟨trivial, ?_⟩
    rintro ⟨-, -, host', rest', hle, heq⟩
    rw [TWR_C_IP_ADDR_SIZE] at hle
    obtain ⟨hlength, -⟩ := counted_append_inj hh (by omega) heq
    omega

theorem twr_ip_lower_flrs_to_sa_cases (octets : List Byte) :
    (twr_ip_lower_flrs_to_sa order octets = .error .undefined ∧ ¬ LowerFloorsFit 14 octets) ∨
      (twr_ip_lower_flrs_to_sa order octets = .error .twr_s_unknown_tower ∧ LowerFloorsFit 14 octets) ∨
        (∃ sa, twr_ip_lower_flrs_to_sa order octets = .ok sa) ∧
          (LowerFloorsFit 14 octets ↔ LowerFloorsFit TWR_C_IP_PORT_SIZE octets) := by
  obtain hshort | ⟨count, body, hcount, rfl⟩ := count_or_short octets
  · rw [twr_ip_lower_flrs_to_sa, memcpy_int16_short order hshort]
    refine .inl ⟨rfl, ?_⟩
    rintro ⟨count, body, -, -, rfl, -⟩
    rw [List.length_append, length_lowBytes] at hshort
    omega
  have hfit : ∀ limit, LowerFloorsFit limit (lowBytes 2 count ++ body) ↔ count ≠ 0 ∧ UpperFit (PortFit limit) count body := by
    intro limit
    constructor
    · rintro ⟨count', body', hcount', hsome, heq, h⟩
      obtain ⟨rfl, rfl⟩ := lowBytes_append_inj hcount hcount' heq
      exact ⟨hsome, h⟩
    · exact fun h => ⟨count, body, hcount, h.1, rfl, h.2⟩
  rw [twr_ip_lower_flrs_to_sa_count order hcount, hfit, hfit]
  by_cases hsome : count = 0
  · rw [if_pos hsome]
    exact .inl ⟨rfl, fun h => h.1 hsome⟩
  rw [if_neg hsome]
  obtain ⟨hfind, hnot⟩ | ⟨hfind, hall⟩ | ⟨lower, hfind, hlower⟩ := find_ip_floors_cases order count body
  · rw [hfind]
    exact .inl ⟨rfl, fun h => hnot _ h.2⟩
  · rw [hfind]
    exact .inr (.inl ⟨rfl, hsome, hall _⟩)
  · rw [hfind, hlower, hlower]
    simp only [bind, Except.bind, ne_eq, hsome, not_false_eq_true, true_and]
    exact port_to_sa_cases order lower

/-- The calls that take a tower, or a floor of one, apart. -/
inductive ParserCall where
  | to_tower_ref (tower : ReceivedTower)
  | lower_flrs_to_sa (tower : ReceivedTower)
  | flr_to_uuid (floor : rpc_tower_floor_t)
  | flr_to_rpc_prot_id (floor : rpc_tower_floor_t)

variable (supported : rpc_protseq_id_t → Bool)

def ParserCall.outcome : ParserCall → Except tower_status_t Unit
  | to_tower_ref tower => (rpc__tower_to_tower_ref order tower.totwr_t).map fun _ => ()
  | lower_flrs_to_sa tower => (twr_ip_lower_flrs_to_sa order tower.tower_octet_string).map fun _ => ()
  | flr_to_uuid floor => (rpc__tower_flr_to_uuid order floor).map fun _ => ()
  | flr_to_rpc_prot_id floor => (rpc__tower_flr_to_rpc_prot_id order supported floor).map fun _ => ()

/-- How many bytes a call copies to its variable for a version. -/
def ParserCall.versionBytes : ParserCall → ℕ
  | flr_to_uuid floor =>
    match rpc__tower_flr_id_to_uuid order (RPC_PROT_ID_START floor) with
    | .ok _ => floor.address_count.toNat
    | .error _ => 0
  | flr_to_rpc_prot_id floor =>
    match memcpy RPC_C_TOWER_PROT_ID_SIZE (RPC_PROT_ID_START floor) with
    | .ok prot_id =>
      match find_rpc_prot_id supported (prot_id.getD 0 0) protseq_ids with
      | .ok _ => floor.address_count.toNat
      | .error _ => 0
    | .error _ => 0
  | _ => 0

def ParserCall.WellFormed : ParserCall → Prop
  | to_tower_ref tower => tower.Fits
  | lower_flrs_to_sa tower => LowerFloorsFit TWR_C_IP_PORT_SIZE tower.tower_octet_string
  | flr_to_uuid floor => floor.ForUuid
  | flr_to_rpc_prot_id floor => floor.ForProtocol

/-- A call reads nothing behind the end of the tower and nothing too long for a variable, and reports what is malformed. -/
structure ParserCall.Safe (call : ParserCall) : Prop where
  defined : call.outcome order supported ≠ .error .undefined
  version : call.versionBytes order supported ≤ RPC_C_TOWER_VERSION_SIZE
  rejected : ¬ call.WellFormed → ∃ status, call.outcome order supported = .error status

/-- The calls to which nothing malformed is given that the code does not happen to report. Of the internet's floors that
is a port of up to fourteen bytes, in front of a floor that is not the host's; of the floors for protocols one whose
identifier is there, and of no protocol of this host. -/
def ParserCall.Sound : ParserCall → Prop
  | to_tower_ref tower => tower.Fits
  | lower_flrs_to_sa tower => LowerFloorsFit 14 tower.tower_octet_string
  | flr_to_uuid floor => floor.ForUuid
  | flr_to_rpc_prot_id floor => floor.ForProtocol ∨
      ∃ prot_id, (RPC_PROT_ID_START floor).head? = some prot_id ∧
        ∀ protseq_id, supported protseq_id = true → prot_id ≠ (network_inq_prot_vers (rpc_g_protseq_id protseq_id).rpc_protocol_id).1

theorem neverReports_safe_iff {α : Type} {outcome : Except tower_status_t α} (hnever : NeverReports outcome) {wellFormed : Prop}
    (hok : wellFormed → ∃ a, outcome = .ok a) :
    (outcome.map (fun _ => ()) ≠ .error .undefined ∧
      (¬ wellFormed → ∃ status, outcome.map (fun _ => ()) = .error status)) ↔ wellFormed := by
  constructor
  · rintro ⟨hdefined, hrejected⟩
    by_contra hnot
    obtain ⟨status, hstatus⟩ := hrejected hnot
    obtain rfl | ⟨a, rfl⟩ := hnever
    · exact hdefined rfl
    · exact absurd hstatus (by simp [Except.map])
  · intro h
    obtain ⟨a, rfl⟩ := hok h
    exact ⟨by simp [Except.map], fun hnot => absurd h hnot⟩

theorem find_rpc_prot_id_invalid_iff (prot_id : Byte) :
    find_rpc_prot_id supported prot_id protseq_ids = .error .rpc_s_invalid_rpc_protid ↔
      ∀ protseq_id, supported protseq_id = true →
        prot_id ≠ (network_inq_prot_vers (rpc_g_protseq_id protseq_id).rpc_protocol_id).1 := by
  have hlist : ∀ ids : List rpc_protseq_id_t, find_rpc_prot_id supported prot_id ids = .error .rpc_s_invalid_rpc_protid ↔
      ∀ protseq_id ∈ ids, supported protseq_id = true →
        prot_id ≠ (network_inq_prot_vers (rpc_g_protseq_id protseq_id).rpc_protocol_id).1 := by
    intro ids
    induction ids with
    | nil => simp [find_rpc_prot_id]
    | cons protseq_id ids ih =>
      rw [find_rpc_prot_id, rpc__network_inq_prot_version, List.forall_mem_cons]
      by_cases hsupported : supported protseq_id = true
      · simp only [hsupported, Bool.not_true, Bool.false_eq_true, ↓reduceIte, true_imp_iff]
        by_cases hsame : prot_id = (network_inq_prot_vers (rpc_g_protseq_id protseq_id).rpc_protocol_id).1
        · simp [hsame]
        · rw [if_neg hsame, ih]
          simp [hsame]
      · simpa [hsupported] using ih
  rw [hlist]
  exact ⟨fun h protseq_id => h protseq_id (mem_protseq_ids protseq_id), fun h protseq_id _ => h protseq_id⟩

theorem to_rpc_prot_id_cons {floor : rpc_tower_floor_t} {prot_id : Byte} {rest : List Byte}
    (hstart : RPC_PROT_ID_START floor = prot_id :: rest) :
    rpc__tower_flr_to_rpc_prot_id order supported floor = (do
      let (rpc_protocol_id, version_major) ← find_rpc_prot_id supported prot_id protseq_ids
      let prot_vers_minor ← address_int16 order floor
      return (rpc_protocol_id, version_major, (RPC_RESOLVE_ENDIAN_INT16 order prot_vers_minor).setWidth 32)) := by
  rw [rpc__tower_flr_to_rpc_prot_id, hstart, memcpy_prot_id]
  rfl

theorem to_rpc_prot_id_safe_iff (floor : rpc_tower_floor_t) :
    (ParserCall.flr_to_rpc_prot_id floor).Safe order supported ↔ (ParserCall.flr_to_rpc_prot_id floor).Sound supported := by
  cases hstart : RPC_PROT_ID_START floor with
  | nil =>
    refine iff_of_false (fun h => h.defined ?_) ?_
    · rw [ParserCall.outcome, rpc__tower_flr_to_rpc_prot_id, hstart]
      rfl
    · rintro (h | ⟨prot_id, hhead, -⟩)
      · have hlong := length_prot_id_start h.fits
        rw [hstart, List.length_nil] at hlong
        omega
      · rw [hstart] at hhead
        exact absurd hhead (by simp)
  | cons prot_id rest =>
    have hunknown : (∃ prot_id, (RPC_PROT_ID_START floor).head? = some prot_id ∧ ∀ protseq_id, supported protseq_id = true →
        prot_id ≠ (network_inq_prot_vers (rpc_g_protseq_id protseq_id).rpc_protocol_id).1) ↔
          find_rpc_prot_id supported prot_id protseq_ids = .error .rpc_s_invalid_rpc_protid := by
      rw [find_rpc_prot_id_invalid_iff, hstart]
      simp
    rw [ParserCall.Sound, hunknown]
    have houtcome : (ParserCall.flr_to_rpc_prot_id floor).outcome order supported =
        (rpc__tower_flr_to_rpc_prot_id order supported floor).map fun _ => () := rfl
    rw [to_rpc_prot_id_cons order supported hstart] at houtcome
    have hversion : (ParserCall.flr_to_rpc_prot_id floor).versionBytes order supported =
        match find_rpc_prot_id supported prot_id protseq_ids with
        | .ok _ => floor.address_count.toNat
        | .error _ => 0 := by
      rw [ParserCall.versionBytes, hstart, memcpy_prot_id]
      rfl
    obtain hinvalid | ⟨found, hfound⟩ := find_rpc_prot_id_cases supported prot_id protseq_ids
    · rw [hinvalid] at houtcome hversion
      refine iff_of_true ⟨?_, ?_, fun _ => ⟨_, houtcome⟩⟩ (.inr hinvalid)
      · rw [houtcome]
        simp [bind, Except.bind, Except.map]
      · exact hversion.trans_le (Nat.zero_le _)
    · rw [hfound] at houtcome hversion
      have hnever := neverReports_address_int16 order floor
      have hiff := neverReports_safe_iff hnever fun h : floor.ForProtocol => address_int16_fits order h.fits h.address
      have hsame : (ParserCall.flr_to_rpc_prot_id floor).outcome order supported = (address_int16 order floor).map fun _ => () := by
        rw [houtcome]
        cases address_int16 order floor <;> rfl
      rw [hfound]
      constructor
      · rintro ⟨hdefined, -, hrejected⟩
        rw [hsame] at hdefined hrejected
        exact .inl (hiff.mp ⟨hdefined, hrejected⟩)
      · intro h
        have h := h.resolve_right (by simp)
        obtain ⟨hdefined, hrejected⟩ := hiff.mpr h
        refine ⟨hsame ▸ hdefined, ?_, hsame ▸ hrejected⟩
        rw [hversion]
        exact h.address.le

theorem to_uuid_safe_iff (floor : rpc_tower_floor_t) :
    (ParserCall.flr_to_uuid floor).Safe order supported ↔ (ParserCall.flr_to_uuid floor).Sound supported := by
  have hiff := neverReports_safe_iff (neverReports_to_uuid order floor) (to_uuid_forUuid order)
  constructor
  · exact fun h => hiff.mp ⟨h.defined, h.rejected⟩
  · intro h
    refine ⟨(hiff.mpr h).1, ?_, (hiff.mpr h).2⟩
    rw [ParserCall.versionBytes]
    cases rpc__tower_flr_id_to_uuid order (RPC_PROT_ID_START floor) with
    | error status => exact Nat.zero_le _
    | ok id => exact h.address.le

theorem lower_flrs_to_sa_safe_iff (tower : ReceivedTower) :
    (ParserCall.lower_flrs_to_sa tower).Safe order supported ↔ (ParserCall.lower_flrs_to_sa tower).Sound supported := by
  have houtcome : (ParserCall.lower_flrs_to_sa tower).outcome order supported =
      (twr_ip_lower_flrs_to_sa order tower.tower_octet_string).map fun _ => () := rfl
  rw [ParserCall.Sound]
  obtain ⟨hcode, hnot⟩ | ⟨hcode, hfit⟩ | ⟨⟨sa, hcode⟩, hfit⟩ := twr_ip_lower_flrs_to_sa_cases order tower.tower_octet_string
  · rw [hcode] at houtcome
    exact iff_of_false (fun h => h.defined houtcome) hnot
  · rw [hcode] at houtcome
    refine iff_of_true ⟨?_, Nat.zero_le _, fun _ => ⟨_, houtcome⟩⟩ hfit
    rw [houtcome]
    simp [Except.map]
  · rw [hcode] at houtcome
    have hok : ∀ status, (ParserCall.lower_flrs_to_sa tower).outcome order supported ≠ .error status := by
      intro status
      rw [houtcome]
      simp [Except.map]
    rw [hfit]
    constructor
    · intro h
      by_contra hnot
      obtain ⟨status, hstatus⟩ := h.rejected hnot
      exact hok status hstatus
    · exact fun h => ⟨hok _, Nat.zero_le _, fun hnot => absurd h hnot⟩

/-- A call takes a tower apart safely exactly where what it is given is not malformed, but for the few cases that it reports
for another reason. -/
theorem parser_call_safe_iff (call : ParserCall) : call.Safe order supported ↔ call.Sound supported := by
  cases call with
  | to_tower_ref tower =>
    have hiff := neverReports_safe_iff (neverReports_to_tower_ref order tower.totwr_t) (rpc__tower_to_tower_ref_fits order)
    constructor
    · exact fun h => hiff.mp ⟨h.defined, h.rejected⟩
    · exact fun h => ⟨(hiff.mpr h).1, Nat.zero_le _, (hiff.mpr h).2⟩
  | lower_flrs_to_sa tower => exact lower_flrs_to_sa_safe_iff order supported tower
  | flr_to_uuid floor => exact to_uuid_safe_iff order supported floor
  | flr_to_rpc_prot_id floor => exact to_rpc_prot_id_safe_iff order supported floor

end Host

/-- A floor with some prefix and some bytes for the version. -/
def hostileFloor (prefix_id : Byte) (version : List Byte) : rpc_tower_floor_t where
  prot_id_count := 19
  address_count := BitVec.ofNat 16 version.length
  octet_string := [19, 0, prefix_id] ++ List.replicate 18 0 ++ counted version

def shortTower : ReceivedTower := { tower_length := 2, tower_octet_string := [1, 0], length_eq := rfl }

/-- A prefix that is not the one of UUIDs is not reported, four bytes are copied to a variable of two, and a tower is read
past its end. -/
theorem hostile_towers_parsed :
    (ParserCall.flr_to_uuid (hostileFloor 0x0E [1, 0])).outcome .little (fun _ => true) = .ok () ∧
      (ParserCall.flr_to_uuid (hostileFloor 0x0D [1, 0, 1, 0])).versionBytes .little (fun _ => true) = 4 ∧
      (ParserCall.to_tower_ref shortTower).outcome .little (fun _ => true) = .error .undefined := by
  decide +kernel

end dce.rpc
