import Dce.Lib.ByteOrder

namespace lib

abbrev Memory := ℕ → Byte

namespace Memory

/-- The `len` bytes from an offset on. -/
def read (m : Memory) (offset len : ℕ) : List Byte := (List.range len).map fun k => m (offset + k)

def write (m : Memory) (offset : ℕ) (bytes : List Byte) : Memory := fun a =>
  if offset ≤ a ∧ a < offset + bytes.length then bytes.getD (a - offset) 0 else m a

/-- `len` bytes moved as `memmove` does; the two ranges may overlap. -/
def move (m : Memory) (source target len : ℕ) : Memory := fun a =>
  if target ≤ a ∧ a < target + len then m (source + (a - target)) else m a

/-- Bytes put into a piece of `size` bytes; it ends with nothing when one of them would lie behind the piece. -/
def store (size : ℕ) (m : Memory) (offset : ℕ) (bytes : List Byte) : Option Memory :=
  if offset + bytes.length ≤ size then some (m.write offset bytes) else none

variable (m : Memory)

theorem store_eq_some {size offset : ℕ} {bytes : List Byte} (h : offset + bytes.length ≤ size) :
    m.store size offset bytes = some (m.write offset bytes) := if_pos h

@[simp]
theorem length_read (offset len : ℕ) : (m.read offset len).length = len := by simp [read]

theorem read_congr {m m' : Memory} {offset offset' len : ℕ} (h : ∀ k < len, m' (offset' + k) = m (offset + k)) :
    m'.read offset' len = m.read offset len :=
  List.map_congr_left fun k hk => h k (List.mem_range.mp hk)

theorem move_inside {source target len k : ℕ} (hk : k < len) : m.move source target len (target + k) = m (source + k) := by
  rw [move, if_pos (by omega), Nat.add_sub_cancel_left]

theorem move_outside {source target len a : ℕ} (ha : a < target ∨ target + len ≤ a) : m.move source target len a = m a := by
  rw [move, if_neg (by omega)]

theorem write_outside {offset a : ℕ} {bytes : List Byte} (ha : a < offset ∨ offset + bytes.length ≤ a) :
    m.write offset bytes a = m a := by
  rw [write, if_neg (by omega)]

theorem write_read_inside {m' : Memory} {source target len k : ℕ} (hk : k < len) :
    m.write target (m'.read source len) (target + k) = m' (source + k) := by
  have hinside : target ≤ target + k ∧ target + k < target + (m'.read source len).length := by
    rw [length_read]
    omega
  rw [write, if_pos hinside]
  simp [read, hk]

theorem read_write_same (offset : ℕ) (bytes : List Byte) : (m.write offset bytes).read offset bytes.length = bytes := by
  refine List.ext_getElem (by simp) fun k hk hk' => ?_
  have hinside : offset ≤ offset + k ∧ offset + k < offset + bytes.length := by omega
  simp only [length_read] at hk
  simp [read, write, hk]

theorem read_write_outside {offset o n : ℕ} {bytes : List Byte} (hapart : o + n ≤ offset ∨ offset + bytes.length ≤ o) :
    (m.write offset bytes).read o n = m.read o n :=
  read_congr fun k hk => m.write_outside (by omega)

theorem read_add (offset left right : ℕ) :
    m.read offset (left + right) = m.read offset left ++ m.read (offset + left) right := by
  simp only [read, List.range_add, List.map_append, List.map_map, Function.comp_def, Nat.add_assoc]

theorem take_read {offset len n : ℕ} (h : n ≤ len) : (m.read offset len).take n = m.read offset n := by
  obtain ⟨more, rfl⟩ := Nat.exists_eq_add_of_le h
  rw [read_add, List.take_append_of_le_length (by simp), List.take_of_length_le (by simp)]

theorem drop_read {offset len n : ℕ} (h : n ≤ len) : (m.read offset len).drop n = m.read (offset + n) (len - n) := by
  obtain ⟨more, rfl⟩ := Nat.exists_eq_add_of_le h
  rw [read_add, List.drop_left' (by simp), Nat.add_sub_cancel_left]

theorem read_eq_append_iff {offset : ℕ} {left right : List Byte} :
    m.read offset (left ++ right).length = left ++ right ↔
      m.read offset left.length = left ∧ m.read (offset + left.length) right.length = right := by
  rw [List.length_append, read_add]
  exact ⟨fun h => List.append_inj h (by simp), fun h => by rw [h.1, h.2]⟩

theorem read_move_inside {source target len k n : ℕ} (h : k + n ≤ len) :
    (m.move source target len).read (target + k) n = m.read (source + k) n := by
  refine read_congr fun i hi => ?_
  rw [Nat.add_assoc, m.move_inside (show k + i < len by omega), Nat.add_assoc]

theorem read_move_outside {source target len o n : ℕ} (hapart : o + n ≤ target ∨ target + len ≤ o) :
    (m.move source target len).read o n = m.read o n :=
  read_congr fun i hi => m.move_outside (by omega)

def Holds (offset : ℕ) (bytes : List Byte) : Prop := m.read offset bytes.length = bytes

variable {m} {offset : ℕ} {bytes left right : List Byte}

theorem holds_append_iff : m.Holds offset (left ++ right) ↔ m.Holds offset left ∧ m.Holds (offset + left.length) right :=
  m.read_eq_append_iff

theorem holds_write (m : Memory) (offset : ℕ) (bytes : List Byte) : (m.write offset bytes).Holds offset bytes :=
  m.read_write_same offset bytes

theorem Holds.write {o : ℕ} {stored : List Byte} (h : m.Holds offset bytes)
    (hapart : offset + bytes.length ≤ o ∨ o + stored.length ≤ offset) : (m.write o stored).Holds offset bytes :=
  (m.read_write_outside hapart).trans h

theorem Holds.move {source target len : ℕ} (h : m.Holds offset bytes)
    (hapart : offset + bytes.length ≤ target ∨ target + len ≤ offset) : (m.move source target len).Holds offset bytes :=
  (m.read_move_outside hapart).trans h

theorem Holds.moved {source k : ℕ} (h : m.Holds (source + k) bytes) (target len : ℕ) (hlen : k + bytes.length ≤ len) :
    (m.move source target len).Holds (target + k) bytes :=
  (m.read_move_inside hlen).trans h

theorem Holds.congr {m' : Memory} (h : m.Holds offset bytes) (hkept : ∀ k < bytes.length, m' (offset + k) = m (offset + k)) :
    m'.Holds offset bytes :=
  (read_congr hkept).trans h

theorem Holds.get (h : m.Holds offset bytes) {k : ℕ} (hk : k < bytes.length) : m (offset + k) = bytes[k] := by
  have hbyte := congrArg (·[k]?) h
  simpa [read, hk] using hbyte

end Memory

end lib
