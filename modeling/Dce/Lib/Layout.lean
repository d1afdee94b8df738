import Dce.Lib.Memory

namespace lib

namespace ByteOrder

variable (order : ByteOrder)

/-- Integers of the given sizes in bytes, one behind the other as in a `struct` without holes. -/
def storeAll : List ℕ → List ℕ → List Byte
  | size :: sizes, v :: values => order.store size v ++ storeAll sizes values
  | _, _ => []

def loadAll : List ℕ → List Byte → List ℕ
  | [], _ => []
  | size :: sizes, bytes => order.load (bytes.take size) :: loadAll sizes (bytes.drop size)

/-- Each value fits its size. -/
inductive Fit : List ℕ → List ℕ → Prop where
  | nil : Fit [] []
  | cons {size v : ℕ} {sizes values : List ℕ} : v < 256 ^ size → Fit sizes values → Fit (size :: sizes) (v :: values)

variable {sizes values : List ℕ}

theorem length_storeAll (h : Fit sizes values) : (order.storeAll sizes values).length = sizes.sum := by
  induction h with
  | nil => rfl
  | cons _ _ ih => rw [storeAll, List.length_append, length_store, ih, List.sum_cons]

theorem loadAll_storeAll (h : Fit sizes values) : order.loadAll sizes (order.storeAll sizes values) = values := by
  induction h with
  | nil => rfl
  | @cons size v sizes values hv _ ih =>
    have hlength : (order.store size v).length = size := order.length_store size v
    rw [storeAll, loadAll, List.take_left' hlength, List.drop_left' hlength, load_store, ih, Nat.mod_eq_of_lt hv]

end ByteOrder

/-- A length rounded up to a multiple of `a`. -/
def roundUp (a n : ℕ) : ℕ := (n + (a - 1)) / a * a

theorem dvd_roundUp (a n : ℕ) : a ∣ roundUp a n := Dvd.intro_left _ rfl

theorem le_roundUp {a : ℕ} (ha : 0 < a) (n : ℕ) : n ≤ roundUp a n := by
  have hdiv := Nat.div_add_mod (n + (a - 1)) a
  have hmod := Nat.mod_lt (n + (a - 1)) ha
  rw [Nat.mul_comm] at hdiv
  unfold roundUp
  omega

theorem roundUp_add {a m : ℕ} (ha : 0 < a) (h : a ∣ m) (n : ℕ) : roundUp a (m + n) = m + roundUp a n := by
  obtain ⟨k, rfl⟩ := h
  unfold roundUp
  rw [Nat.add_assoc, Nat.mul_add_div ha, Nat.add_mul, Nat.mul_comm k a]

section Layout

variable (a : ℕ)

/-- The room that parts of these lengths take when each begins on a multiple of `a` and all are padded. -/
def padded (lens : List ℕ) : ℕ := (lens.map (roundUp a)).sum

def span : List ℕ → ℕ
  | [] => 0
  | [len] => len
  | len :: next :: lens => roundUp a len + span (next :: lens)

@[simp]
theorem padded_nil : padded a [] = 0 := rfl

@[simp]
theorem padded_cons (len : ℕ) (lens : List ℕ) : padded a (len :: lens) = roundUp a len + padded a lens := rfl

@[simp]
theorem padded_append (left right : List ℕ) : padded a (left ++ right) = padded a left + padded a right := by
  simp [padded]

theorem dvd_padded (lens : List ℕ) : a ∣ padded a lens := by
  induction lens with
  | nil => simp
  | cons len lens ih => exact (padded_cons a len lens) ▸ dvd_add (dvd_roundUp a len) ih

theorem span_append_singleton (lens : List ℕ) (len : ℕ) : span a (lens ++ [len]) = padded a lens + len := by
  induction lens with
  | nil => simp [span]
  | cons l lens ih =>
    obtain ⟨next, rest, hrest⟩ : ∃ next rest, lens ++ [len] = next :: rest :=
      List.exists_cons_of_ne_nil (List.append_ne_nil_of_right_ne_nil _ (by simp))
    rw [List.cons_append, hrest, span, ← hrest, ih, padded_cons, Nat.add_assoc]

theorem span_append {left right : List ℕ} (h : right ≠ []) : span a (left ++ right) = padded a left + span a right := by
  obtain ⟨init, last, rfl⟩ : ∃ init last, right = init ++ [last] :=
    ⟨right.dropLast, right.getLast h, (List.dropLast_append_getLast h).symm⟩
  rw [← List.append_assoc, span_append_singleton, span_append_singleton, padded_append, Nat.add_assoc]

theorem span_cons {len : ℕ} {lens : List ℕ} (h : lens ≠ []) : span a (len :: lens) = roundUp a len + span a lens := by
  rw [← List.singleton_append, span_append a h]
  rfl

variable {a} (ha : 0 < a)
include ha

theorem span_le_padded (lens : List ℕ) : span a lens ≤ padded a lens := by
  rcases List.eq_nil_or_concat lens with rfl | ⟨init, last, rfl⟩
  · simp [span]
  · rw [List.concat_eq_append, span_append_singleton, padded_append, padded_cons, padded_nil]
    exact Nat.add_le_add_left (le_roundUp ha last) _

theorem sum_le_span (lens : List ℕ) : lens.sum ≤ span a lens := by
  induction lens with
  | nil => exact Nat.zero_le _
  | cons len lens ih =>
    rcases eq_or_ne lens [] with rfl | hne
    · simp [span]
    · rw [List.sum_cons, span_cons a hne]
      exact Nat.add_le_add (le_roundUp ha len) ih

theorem padded_eq_roundUp_span {lens : List ℕ} (h : lens ≠ []) : padded a lens = roundUp a (span a lens) := by
  obtain ⟨init, last, rfl⟩ : ∃ init last, lens = init ++ [last] :=
    ⟨lens.dropLast, lens.getLast h, (List.dropLast_append_getLast h).symm⟩
  rw [span_append_singleton, roundUp_add ha (dvd_padded a init), padded_append, padded_cons, padded_nil, Nat.add_zero]

end Layout

/-- These parts lie in the memory from an offset on, each padded to a multiple of `a`. -/
def Stored (a : ℕ) (m : Memory) : ℕ → List (List Byte) → Prop
  | _, [] => True
  | offset, part :: parts => m.read offset part.length = part ∧ Stored a m (offset + roundUp a part.length) parts

namespace Stored

variable {a : ℕ} {m m' : Memory}

theorem append_iff {offset : ℕ} {left right : List (List Byte)} :
    Stored a m offset (left ++ right) ↔
      Stored a m offset left ∧ Stored a m (offset + padded a (left.map List.length)) right := by
  induction left generalizing offset with
  | nil => simp [Stored]
  | cons part left ih => simp [Stored, ih, and_assoc, Nat.add_assoc]

theorem moved {source target : ℕ} {parts : List (List Byte)} (ha : 0 < a) (hparts : Stored a m source parts)
    (hmoved : ∀ k < span a (parts.map List.length), m' (target + k) = m (source + k)) : Stored a m' target parts := by
  induction parts generalizing source target with
  | nil => trivial
  | cons part parts ih =>
    obtain ⟨hpart, hparts⟩ := hparts
    rcases eq_or_ne parts [] with rfl | hne
    · have hmoved : ∀ k < part.length, m' (target + k) = m (source + k) := hmoved
      exact ⟨(Memory.read_congr hmoved).trans hpart, trivial⟩
    · have hspan : span a ((part :: parts).map List.length) = roundUp a part.length + span a (parts.map List.length) := by
        rw [List.map_cons, span_cons a (by simpa using hne)]
      have hle := le_roundUp ha part.length
      refine ⟨?_, ih hparts fun k hk => ?_⟩
      · rw [Memory.read_congr fun k hk => hmoved k (by omega), hpart]
      · rw [Nat.add_assoc, Nat.add_assoc]
        exact hmoved _ (by omega)

theorem congr {offset : ℕ} {parts : List (List Byte)} (ha : 0 < a) (hparts : Stored a m offset parts)
    (hsame : ∀ k < span a (parts.map List.length), m' (offset + k) = m (offset + k)) : Stored a m' offset parts :=
  hparts.moved ha hsame

end Stored

end lib
