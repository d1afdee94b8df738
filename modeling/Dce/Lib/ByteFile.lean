import Mathlib.Data.List.GetD
import Dce.Lib.ByteOrder

namespace lib

theorem getD_take_of_lt (data : List Byte) {len i : ℕ} (hi : i < len) : (data.take len).getD i 0 = data.getD i 0 := by
  simp only [List.getD_eq_getElem?_getD, List.getElem?_take_of_lt hi]

theorem getD_drop (data : List Byte) (len i : ℕ) : (data.drop len).getD i 0 = data.getD (len + i) 0 := by
  simp only [List.getD_eq_getElem?_getD, List.getElem?_drop]

/-- The contents of a file. Bytes past the end are zero, so that two files are
equal when their lengths and bytes are. -/
structure ByteFile where
  length : ℕ
  byte : ℕ → Byte
  byte_beyond : ∀ i, length ≤ i → byte i = 0

namespace ByteFile

theorem ext {f g : ByteFile} (hlength : f.length = g.length) (hbyte : ∀ i < f.length, f.byte i = g.byte i) : f = g := by
  obtain ⟨length, byte, hbeyond⟩ := f
  obtain ⟨length', byte', hbeyond'⟩ := g
  obtain rfl : length = length' := hlength
  obtain rfl : byte = byte' := by
    funext i
    by_cases hi : i < length
    · exact hbyte i hi
    · rw [hbeyond i (Nat.not_lt.mp hi), hbeyond' i (Nat.not_lt.mp hi)]
  rfl

def empty : ByteFile := ⟨0, fun _ => 0, fun _ _ => rfl⟩

/-- `write` at an offset. It extends the file, over a hole of zeros if need be;
writing no bytes changes nothing. -/
def write (f : ByteFile) (offset : ℕ) (data : List Byte) : ByteFile where
  length := if data = [] then f.length else max f.length (offset + data.length)
  byte i := if offset ≤ i ∧ i < offset + data.length then data.getD (i - offset) 0 else f.byte i
  byte_beyond i hi := by
    have hout : ¬(offset ≤ i ∧ i < offset + data.length) := by
      rintro ⟨_, hlt⟩
      split at hi
      · next hempty =>
        rw [hempty, List.length_nil] at hlt
        omega
      · omega
    rw [if_neg hout]
    refine f.byte_beyond i ?_
    split at hi <;> omega

/-- `ftruncate`. It may also lengthen the file, by zeros. -/
def truncate (f : ByteFile) (length : ℕ) : ByteFile where
  length := length
  byte i := if i < length then f.byte i else 0
  byte_beyond _ hi := if_neg (Nat.not_lt.mpr hi)

/-- `read` of exactly `count` bytes; a short read is an error. -/
def read (f : ByteFile) (offset count : ℕ) : Option (List Byte) :=
  if offset + count ≤ f.length ∨ count = 0 then some ((List.range count).map fun i => f.byte (offset + i)) else none

variable (f : ByteFile)

@[simp] theorem write_nil (offset : ℕ) : f.write offset [] = f := by
  refine ext (by simp [write]) fun i _ => ?_
  simp only [write, List.length_nil, Nat.add_zero]
  exact if_neg (by omega)

theorem write_length_of_ne_nil (offset : ℕ) {data : List Byte} (hdata : data ≠ []) :
    (f.write offset data).length = max f.length (offset + data.length) := by
  simp [write, hdata]

theorem write_byte_inside (offset : ℕ) (data : List Byte) {i : ℕ} (hlo : offset ≤ i)
    (hhi : i < offset + data.length) : (f.write offset data).byte i = data.getD (i - offset) 0 :=
  if_pos ⟨hlo, hhi⟩

theorem write_byte_outside (offset : ℕ) (data : List Byte) {i : ℕ}
    (hout : ¬(offset ≤ i ∧ i < offset + data.length)) : (f.write offset data).byte i = f.byte i :=
  if_neg hout

@[simp] theorem truncate_length (length : ℕ) : (f.truncate length).length = length := rfl

theorem truncate_byte_of_lt {length i : ℕ} (hi : i < length) : (f.truncate length).byte i = f.byte i :=
  if_pos hi

theorem truncate_byte_of_le {length i : ℕ} (hi : length ≤ i) : (f.truncate length).byte i = 0 :=
  if_neg (Nat.not_lt.mpr hi)

theorem write_append (offset : ℕ) (left right : List Byte) :
    (f.write offset left).write (offset + left.length) right = f.write offset (left ++ right) := by
  by_cases hright : right = []
  · simp [hright]
  · have hboth : left ++ right ≠ [] := by simp [hright]
    refine ext ?_ fun i _ => ?_
    · rw [write_length_of_ne_nil _ _ hright, write_length_of_ne_nil _ _ hboth, List.length_append]
      by_cases hleft : left = []
      · simp [hleft]
      · rw [write_length_of_ne_nil _ _ hleft]
        omega
    · by_cases hr : offset + left.length ≤ i ∧ i < offset + left.length + right.length
      · rw [write_byte_inside _ _ _ hr.1 hr.2, write_byte_inside _ _ _ (by omega) (by rw [List.length_append]; omega),
          List.getD_append_right _ _ _ _ (by omega)]
        congr 1
        omega
      · rw [write_byte_outside _ _ _ hr]
        by_cases hl : offset ≤ i ∧ i < offset + left.length
        · rw [write_byte_inside _ _ _ hl.1 hl.2, write_byte_inside _ _ _ hl.1 (by rw [List.length_append]; omega),
            List.getD_append _ _ _ _ (by omega)]
        · rw [write_byte_outside _ _ _ hl, write_byte_outside]
          rw [List.length_append]
          omega

def ofList (bytes : List Byte) : ByteFile where
  length := bytes.length
  byte i := bytes.getD i 0
  byte_beyond _ hi := List.getD_eq_default _ _ hi

@[simp] theorem ofList_length (bytes : List Byte) : (ofList bytes).length = bytes.length := rfl

theorem ofList_nil : ofList [] = empty := ext rfl fun _ hi => absurd hi (Nat.not_lt_zero _)

theorem ofList_write_end (bytes more : List Byte) :
    (ofList bytes).write bytes.length more = ofList (bytes ++ more) := by
  by_cases hmore : more = []
  · simp [hmore]
  · refine ext ?_ fun i hi => ?_
    · rw [write_length_of_ne_nil _ _ hmore, ofList_length, ofList_length, List.length_append]
      omega
    · rw [write_length_of_ne_nil _ _ hmore, ofList_length] at hi
      by_cases hin : bytes.length ≤ i
      · rw [write_byte_inside _ _ _ hin (by omega)]
        exact (List.getD_append_right _ _ _ _ hin).symm
      · rw [write_byte_outside _ _ _ (by omega)]
        exact (List.getD_append _ _ _ _ (by omega)).symm

theorem read_ofList_middle (before middle after : List Byte) :
    (ofList (before ++ middle ++ after)).read before.length middle.length = some middle := by
  rw [read, if_pos (Or.inl (by simp))]
  congr 1
  apply List.ext_getElem
  · simp
  · intro i hi hi'
    simp only [List.getElem_map, List.getElem_range]
    change (before ++ middle ++ after).getD (before.length + i) 0 = middle[i]
    rw [List.append_assoc, List.getD_append_right _ _ _ _ (by omega), Nat.add_sub_cancel_left,
      List.getD_append _ _ _ _ hi', List.getD_eq_getElem _ _ hi']

theorem read_none {offset count : ℕ} (hshort : f.length < offset + count) (hcount : 0 < count) :
    f.read offset count = none :=
  if_neg (by omega)

end ByteFile

end lib
