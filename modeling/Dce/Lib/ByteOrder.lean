import Mathlib.Data.Nat.Digits.Lemmas

namespace lib

abbrev Byte := BitVec 8

/-- The order in which a host keeps the bytes of an integer. -/
inductive ByteOrder where
  | big
  | little
  deriving DecidableEq, Repr

def networkBytes (v : BitVec 32) : List Byte :=
  [v.extractLsb' 24 8, v.extractLsb' 16 8, v.extractLsb' 8 8, v.extractLsb' 0 8]

/-- The integer with the given four bytes, the most significant first. -/
def ofNetworkBytes : List Byte → BitVec 32
  | [a, b, c, d] => (a ++ b ++ c ++ d : BitVec 32)
  | _ => 0

/-- The four bytes of an integer as the host keeps them in memory. -/
def ByteOrder.toMemory : ByteOrder → BitVec 32 → List Byte
  | .big, v => networkBytes v
  | .little, v => (networkBytes v).reverse

def ByteOrder.ofMemory : ByteOrder → List Byte → BitVec 32
  | .big, bytes => ofNetworkBytes bytes
  | .little, bytes => ofNetworkBytes bytes.reverse

/-- `htonl`: the integer whose bytes in memory are those of `v` in network order. -/
def ByteOrder.htonl (order : ByteOrder) (v : BitVec 32) : BitVec 32 := order.ofMemory (networkBytes v)

/-- `ntohl`: the integer that the bytes of `v` in memory are in network order. -/
def ByteOrder.ntohl (order : ByteOrder) (v : BitVec 32) : BitVec 32 := ofNetworkBytes (order.toMemory v)

@[simp] theorem length_networkBytes (v : BitVec 32) : (networkBytes v).length = 4 := rfl

@[simp] theorem ofNetworkBytes_networkBytes (v : BitVec 32) : ofNetworkBytes (networkBytes v) = v := by
  apply BitVec.eq_of_getLsbD_eq
  intro i hi
  simp only [ofNetworkBytes, networkBytes, BitVec.getLsbD_append, BitVec.getLsbD_extractLsb']
  split
  · grind
  · split <;> grind

theorem networkBytes_ofNetworkBytes {bytes : List Byte} (hlen : bytes.length = 4) :
    networkBytes (ofNetworkBytes bytes) = bytes := by
  obtain ⟨a, b, c, d, rfl⟩ := List.length_eq_four.mp hlen
  simp only [ofNetworkBytes, networkBytes, List.cons.injEq, and_true]
  refine ⟨?_, ?_, ?_, ?_⟩ <;> apply BitVec.eq_of_getLsbD_eq <;> intro i hi <;>
    simp [BitVec.getLsbD_extractLsb'] <;> grind

namespace ByteOrder

variable (order : ByteOrder)

variable (v : BitVec 32)

theorem toMemory_ofMemory {bytes : List Byte} (hlen : bytes.length = 4) :
    order.toMemory (order.ofMemory bytes) = bytes := by
  cases order with
  | big => exact networkBytes_ofNetworkBytes hlen
  | little =>
    have hrev : bytes.reverse.length = 4 := by simpa using hlen
    simp only [toMemory, ofMemory, networkBytes_ofNetworkBytes hrev, List.reverse_reverse]

@[simp] theorem toMemory_htonl : order.toMemory (order.htonl v) = networkBytes v :=
  order.toMemory_ofMemory (length_networkBytes v)

@[simp] theorem htonl_big : big.htonl v = v := ofNetworkBytes_networkBytes v

@[simp] theorem ntohl_big : big.ntohl v = v := ofNetworkBytes_networkBytes v

end ByteOrder

/-- The `size` lowest bytes of a number, the least significant first. -/
def lowBytes : ℕ → ℕ → List Byte
  | 0, _ => []
  | size + 1, v => BitVec.ofNat 8 v :: lowBytes size (v / 256)

/-- The number with the given bytes, the least significant first. -/
def ofLowBytes (bytes : List Byte) : ℕ := Nat.ofDigits 256 (bytes.map BitVec.toNat)

variable (size v : ℕ)

@[simp] theorem length_lowBytes : (lowBytes size v).length = size := by
  induction size generalizing v with
  | zero => rfl
  | succ size ih => simp [lowBytes, ih]

@[simp] theorem ofLowBytes_nil : ofLowBytes [] = 0 := rfl

@[simp] theorem ofLowBytes_cons (b : Byte) (bytes : List Byte) :
    ofLowBytes (b :: bytes) = b.toNat + 256 * ofLowBytes bytes := by
  simp [ofLowBytes, Nat.ofDigits_cons]

@[simp] theorem ofLowBytes_lowBytes : ofLowBytes (lowBytes size v) = v % 256 ^ size := by
  induction size generalizing v with
  | zero => simp [lowBytes, Nat.mod_one]
  | succ size ih =>
    rw [lowBytes, ofLowBytes_cons, ih, pow_succ', Nat.mod_mul]
    simp

theorem ofLowBytes_lt (bytes : List Byte) : ofLowBytes bytes < 256 ^ bytes.length := by
  induction bytes with
  | nil => simp
  | cons b bytes ih =>
    have hb := b.isLt
    simp only [ofLowBytes_cons, List.length_cons, pow_succ']
    omega

theorem lowBytes_ofLowBytes (bytes : List Byte) : lowBytes bytes.length (ofLowBytes bytes) = bytes := by
  induction bytes with
  | nil => rfl
  | cons b bytes ih =>
    have hbyte : BitVec.ofNat 8 (b.toNat + 256 * ofLowBytes bytes) = b := by
      apply BitVec.eq_of_toNat_eq
      have hb := b.isLt
      rw [BitVec.toNat_ofNat]
      omega
    have hrest : (b.toNat + 256 * ofLowBytes bytes) / 256 = ofLowBytes bytes := by
      have hb := b.isLt
      omega
    rw [List.length_cons, ofLowBytes_cons, lowBytes, hbyte, hrest, ih]

theorem toNat_ofLowBytes (size : ℕ) {bytes : List Byte} (hlen : bytes.length = size) :
    (BitVec.ofNat (8 * size) (ofLowBytes bytes)).toNat = ofLowBytes bytes := by
  subst hlen
  rw [BitVec.toNat_ofNat, Nat.pow_mul]
  exact Nat.mod_eq_of_lt (ofLowBytes_lt bytes)

theorem lowBytes_mod : lowBytes size (v % 256 ^ size) = lowBytes size v := by
  induction size generalizing v with
  | zero => rfl
  | succ size ih =>
    have hbyte : BitVec.ofNat 8 (v % 256 ^ (size + 1)) = BitVec.ofNat 8 v := by
      apply BitVec.eq_of_toNat_eq
      simp only [BitVec.toNat_ofNat, pow_succ', show 2 ^ 8 = 256 from rfl, Nat.mod_mul_right_mod]
    have hrest : v % 256 ^ (size + 1) / 256 = v / 256 % 256 ^ size := by rw [pow_succ', Nat.mod_mul_right_div_self]
    rw [lowBytes, lowBytes, hbyte, hrest, ih]

theorem lowBytes_add (m n v : ℕ) : lowBytes (m + n) v = lowBytes m v ++ lowBytes n (v / 256 ^ m) := by
  induction m generalizing v with
  | zero => simp [lowBytes]
  | succ m ih =>
    rw [Nat.add_right_comm, lowBytes, lowBytes, ih, List.cons_append, Nat.div_div_eq_div_mul, ← pow_succ']

/-- The bytes in memory of an integer of `size` bytes. -/
def ByteOrder.store : ByteOrder → ℕ → ℕ → List Byte
  | .big, size, v => (lowBytes size v).reverse
  | .little, size, v => lowBytes size v

def ByteOrder.load : ByteOrder → List Byte → ℕ
  | .big, bytes => ofLowBytes bytes.reverse
  | .little, bytes => ofLowBytes bytes

def ByteOrder.other : ByteOrder → ByteOrder
  | .big => .little
  | .little => .big

@[simp] theorem ByteOrder.other_big : big.other = little := rfl

@[simp] theorem ByteOrder.other_little : little.other = big := rfl

@[simp] theorem ByteOrder.length_store (order : ByteOrder) (size v : ℕ) : (order.store size v).length = size := by
  cases order <;> simp [store]

@[simp] theorem ByteOrder.load_store (order : ByteOrder) (size v : ℕ) : order.load (order.store size v) = v % 256 ^ size := by
  cases order <;> simp [store, load]

theorem ByteOrder.store_mod (order : ByteOrder) (size v : ℕ) : order.store size (v % 256 ^ size) = order.store size v := by
  cases order <;> simp [store, lowBytes_mod]

theorem ByteOrder.store_big_add (m n v : ℕ) : big.store (m + n) v = big.store n (v / 256 ^ m) ++ big.store m v := by
  simp [store, lowBytes_add]

def swap16 (v : BitVec 16) : BitVec 16 := v >>> 8 ||| v <<< 8

def swap32 (v : BitVec 32) : BitVec 32 :=
  v >>> 24 ||| v >>> 8 &&& 0x0000ff00 ||| v <<< 8 &&& 0x00ff0000 ||| v <<< 24

theorem lowBytes_two (v : BitVec 16) : lowBytes 2 v.toNat = [v.extractLsb' 0 8, v.extractLsb' 8 8] := by
  simp only [lowBytes, List.cons.injEq, and_true]
  constructor <;> apply BitVec.eq_of_toNat_eq <;> simp [BitVec.extractLsb'_toNat, Nat.shiftRight_eq_div_pow]

variable (bytes rest : List Byte) (v : BitVec 32)

theorem lowBytes_four :
    lowBytes 4 v.toNat = [v.extractLsb' 0 8, v.extractLsb' 8 8, v.extractLsb' 16 8, v.extractLsb' 24 8] := by
  simp only [lowBytes, List.cons.injEq, and_true]
  refine ⟨?_, ?_, ?_, ?_⟩ <;> apply BitVec.eq_of_toNat_eq <;>
    simp [BitVec.extractLsb'_toNat, Nat.shiftRight_eq_div_pow, Nat.div_div_eq_div_mul]

theorem swap32_eq :
    swap32 v = v.extractLsb' 0 8 ++ v.extractLsb' 8 8 ++ v.extractLsb' 16 8 ++ v.extractLsb' 24 8 := by
  apply BitVec.eq_of_getLsbD_eq
  intro i hi
  simp only [swap32, BitVec.getLsbD_or, BitVec.getLsbD_and, BitVec.getLsbD_ushiftRight, BitVec.getLsbD_shiftLeft,
    BitVec.getLsbD_append, BitVec.getLsbD_extractLsb']
  interval_cases i <;> simp

@[simp] theorem swap16_swap16 (v : BitVec 16) : swap16 (swap16 v) = v := by
  apply BitVec.eq_of_getLsbD_eq
  intro i hi
  simp [swap16]
  grind

@[simp] theorem swap32_swap32 : swap32 (swap32 v) = v := by
  rw [swap32_eq, swap32_eq]
  apply BitVec.eq_of_getLsbD_eq
  intro i hi
  simp only [BitVec.getLsbD_append, BitVec.getLsbD_extractLsb']
  interval_cases i <;> simp

theorem store_swap16 (v : BitVec 16) : ByteOrder.big.store 2 (swap16 v).toNat = lowBytes 2 v.toNat := by
  rw [ByteOrder.store, lowBytes_two, lowBytes_two]
  simp only [List.reverse_cons, List.reverse_nil, List.nil_append, List.cons_append, List.cons.injEq, and_true]
  constructor <;> apply BitVec.eq_of_getLsbD_eq <;> intro i hi <;> simp [swap16] <;> grind

theorem store_swap32 : ByteOrder.big.store 4 (swap32 v).toNat = lowBytes 4 v.toNat := by
  rw [ByteOrder.store, lowBytes_four, lowBytes_four, swap32_eq]
  simp only [List.reverse_cons, List.reverse_nil, List.nil_append, List.cons_append, List.cons.injEq, and_true]
  refine ⟨?_, ?_, ?_, ?_⟩ <;> apply BitVec.eq_of_getLsbD_eq <;> intro i hi <;>
    simp only [BitVec.getLsbD_append, BitVec.getLsbD_extractLsb'] <;> interval_cases i <;> simp

namespace ByteOrder

variable (order : ByteOrder)

/-- The value of a short integer, in the little-endian representation: swapped on hosts of the other order. -/
def little16 (v : BitVec 16) : BitVec 16 := if order = .little then v else swap16 v

/-- The value of an integer, in the little-endian representation. -/
def little32 (v : BitVec 32) : BitVec 32 := if order = .little then v else swap32 v

variable (v : BitVec 16)

@[simp] theorem little16_little16 : order.little16 (order.little16 v) = v := by
  unfold little16
  split <;> simp

@[simp] theorem little32_little32 (v : BitVec 32) : order.little32 (order.little32 v) = v := by
  unfold little32
  split <;> simp

@[simp] theorem store_little16 : order.store 2 (order.little16 v).toNat = lowBytes 2 v.toNat := by
  cases order with
  | big => exact store_swap16 v
  | little => rfl

@[simp] theorem store_little32 (v : BitVec 32) : order.store 4 (order.little32 v).toNat = lowBytes 4 v.toNat := by
  cases order with
  | big => exact store_swap32 v
  | little => rfl

theorem ofNat_load_store (width : ℕ) (size : ℕ) (hwidth : width = 8 * size) (v : BitVec width) :
    BitVec.ofNat width (order.load (order.store size v.toNat)) = v := by
  subst hwidth
  apply BitVec.eq_of_toNat_eq
  have hlt : v.toNat < 256 ^ size := by
    have h := v.isLt
    rwa [Nat.pow_mul] at h
  rw [load_store, Nat.mod_eq_of_lt hlt, BitVec.toNat_ofNat, Nat.mod_eq_of_lt v.isLt]

@[simp] theorem little16_load :
    order.little16 (BitVec.ofNat 16 (order.load (lowBytes 2 v.toNat))) = v := by
  rw [← order.store_little16, order.ofNat_load_store 16 2 rfl, little16_little16]

@[simp] theorem little32_load (v : BitVec 32) :
    order.little32 (BitVec.ofNat 32 (order.load (lowBytes 4 v.toNat))) = v := by
  rw [← order.store_little32, order.ofNat_load_store 32 4 rfl, little32_little32]

end ByteOrder

/-- A string of bytes behind its length, which takes two bytes with the low one first. -/
def counted (bytes : List Byte) : List Byte := lowBytes 2 bytes.length ++ bytes

@[simp] theorem length_counted (bytes : List Byte) : (counted bytes).length = 2 + bytes.length := by
  simp [counted]

@[simp] theorem drop_counted : (counted bytes ++ rest).drop (2 + bytes.length) = rest := by
  rw [← length_counted, List.drop_left]

theorem drop_two_counted : (counted bytes ++ rest).drop 2 = bytes ++ rest := by
  simp [counted]

end lib
