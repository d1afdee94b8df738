import Mathlib.Data.List.Nodup

namespace lib

/-- A source of stamps that reads a clock: the last reading, how often it was read again
since, and how often the clock has been set back. -/
structure Stamper where
  last : ℕ
  count : ℕ
  epoch : ℕ
  deriving DecidableEq, Repr

namespace Stamper

def next (s : Stamper) (r : ℕ) : Stamper :=
  if r < s.last then ⟨r, 0, s.epoch + 1⟩
  else if s.last < r then ⟨r, 0, s.epoch⟩
  else ⟨r, s.count + 1, s.epoch⟩

def stamp (s : Stamper) : ℕ × ℕ := (s.epoch, s.last + s.count)

def stamps : Stamper → List ℕ → List (ℕ × ℕ)
  | _, [] => []
  | s, r :: rest => (s.next r).stamp :: stamps (s.next r) rest

/-- A clock that goes on goes past the stamps given for its last reading. -/
def Steady : Stamper → List ℕ → Prop
  | _, [] => True
  | s, r :: rest => (s.last < r → s.last + s.count < r) ∧ Steady (s.next r) rest

/-- How often a clock that read `last` is set back. -/
def setbacks : ℕ → List ℕ → ℕ
  | _, [] => 0
  | last, r :: rest => (if r < last then 1 else 0) + setbacks r rest

variable {s : Stamper} {r : ℕ}

theorem next_less (h : r < s.last) : s.next r = ⟨r, 0, s.epoch + 1⟩ := if_pos h

theorem next_greater (h : s.last < r) : s.next r = ⟨r, 0, s.epoch⟩ := by
  rw [next, if_neg (Nat.lt_asymm h), if_pos h]

theorem next_equal : s.next s.last = ⟨s.last, s.count + 1, s.epoch⟩ := by
  rw [next, if_neg (Nat.lt_irrefl _), if_neg (Nat.lt_irrefl _)]

@[simp] theorem next_last : (s.next r).last = r := by
  unfold next
  split_ifs <;> rfl

theorem epoch_next : (s.next r).epoch = s.epoch + if r < s.last then 1 else 0 := by
  unfold next
  split_ifs <;> rfl

theorem epoch_of_mem {readings : List ℕ} {stamp : ℕ × ℕ} (hmem : stamp ∈ s.stamps readings) :
    stamp.1 ≤ s.epoch + setbacks s.last readings := by
  induction readings generalizing s with
  | nil => simp [stamps] at hmem
  | cons r rest ih =>
    have hepoch := epoch_next (s := s) (r := r)
    rw [stamps, List.mem_cons] at hmem
    rw [setbacks]
    obtain rfl | hmem := hmem
    · simp only [Stamper.stamp]
      omega
    · have hrest := ih hmem
      rw [next_last] at hrest
      omega

theorem mem_snoc {α : Type*} {a b : α} {l : List α} : a ∈ l ++ [b] ↔ a ∈ l ∨ a = b := by simp

/-- What the stamps given before say of a source. -/
structure Gave (s : Stamper) (old : List (ℕ × ℕ)) : Prop where
  epoch : ∀ stamp ∈ old, stamp.1 ≤ s.epoch
  upper : ∀ t, (s.epoch, t) ∈ old → t ≤ s.last + s.count
  given : ∀ j, 0 < j → j ≤ s.count → (s.epoch, s.last + j) ∈ old

variable {old : List (ℕ × ℕ)}

theorem Gave.mem_iff (h : s.Gave old) : (s.next r).stamp ∈ old ↔ s.last < r ∧ r ≤ s.last + s.count := by
  obtain hless | rfl | hgreater := Nat.lt_trichotomy r s.last
  · rw [next_less hless, stamp]
    refine iff_of_false (fun hmem => ?_) (by omega)
    exact absurd (h.epoch _ hmem) (by simp)
  · rw [next_equal, stamp]
    refine iff_of_false (fun hmem => ?_) (by omega)
    exact absurd (h.upper _ hmem) (by simp)
  · rw [next_greater hgreater, stamp]
    constructor
    · intro hmem
      exact ⟨hgreater, h.upper _ hmem⟩
    · intro ⟨_, hle⟩
      have hgiven := h.given (r - s.last) (by omega) (by omega)
      rwa [show s.last + (r - s.last) = r + 0 by omega] at hgiven

theorem Gave.next (h : s.Gave old) (hfresh : s.last < r → s.last + s.count < r) :
    (s.next r).Gave (old ++ [(s.next r).stamp]) := by
  obtain hless | rfl | hgreater := Nat.lt_trichotomy r s.last
  · rw [next_less hless, stamp]
    refine ⟨fun stamp hmem => ?_, fun t hmem => ?_, fun j hpos hle => absurd hle (by simp; omega)⟩
    · obtain hmem | rfl := mem_snoc.mp hmem
      · exact Nat.le_succ_of_le (h.epoch stamp hmem)
      · exact Nat.le_refl _
    · obtain hmem | heq := mem_snoc.mp hmem
      · exact absurd (h.epoch _ hmem) (by simp)
      · exact Nat.le_of_eq (Prod.mk.inj heq).2
  · rw [next_equal, stamp]
    refine ⟨fun stamp hmem => ?_, fun t hmem => ?_, fun j hpos hle => mem_snoc.mpr ?_⟩
    · obtain hmem | rfl := mem_snoc.mp hmem
      · exact h.epoch stamp hmem
      · exact Nat.le_refl _
    · obtain hmem | heq := mem_snoc.mp hmem
      · exact Nat.le_succ_of_le (h.upper t hmem)
      · exact Nat.le_of_eq (Prod.mk.inj heq).2
    · obtain hle | rfl := Nat.le_succ_iff.mp hle
      · exact .inl (h.given j hpos hle)
      · exact .inr rfl
  · rw [next_greater hgreater, stamp]
    refine ⟨fun stamp hmem => ?_, fun t hmem => ?_, fun j hpos hle => absurd hle (by simp; omega)⟩
    · obtain hmem | rfl := mem_snoc.mp hmem
      · exact h.epoch stamp hmem
      · exact Nat.le_refl _
    · obtain hmem | heq := mem_snoc.mp hmem
      · exact Nat.le_trans (h.upper t hmem) (Nat.le_of_lt (hfresh hgreater))
      · exact Nat.le_of_eq (Prod.mk.inj heq).2

theorem Gave.nodup_iff (h : s.Gave old) (hold : old.Nodup) {readings : List ℕ} :
    (old ++ s.stamps readings).Nodup ↔ s.Steady readings := by
  induction readings generalizing s old with
  | nil => simpa [stamps, Steady] using hold
  | cons r rest ih =>
    rw [stamps, Steady]
    by_cases hfresh : s.last < r → s.last + s.count < r
    · have hnot : (s.next r).stamp ∉ old := fun hmem => by
        obtain ⟨hlt, hle⟩ := h.mem_iff.mp hmem
        exact Nat.not_lt_of_le hle (hfresh hlt)
      have hnodup : (old ++ [(s.next r).stamp]).Nodup :=
        List.nodup_append.mpr ⟨hold, List.nodup_singleton _, fun a ha b hb => by
          rw [List.mem_singleton.mp hb]
          exact fun heq => hnot (heq ▸ ha)⟩
      rw [← List.singleton_append, ← List.append_assoc, ih (h.next hfresh) hnodup]
      exact (and_iff_right hfresh).symm
    · refine iff_of_false (fun hnodup => ?_) (fun hsteady => hfresh hsteady.1)
      have hmem : (s.next r).stamp ∈ old := h.mem_iff.mpr (by omega)
      exact (List.nodup_append.mp hnodup).2.2 _ hmem _ List.mem_cons_self rfl

theorem nodup_stamps_iff (last : ℕ) (readings : List ℕ) :
    (stamps ⟨last, 0, 0⟩ readings).Nodup ↔ Steady ⟨last, 0, 0⟩ readings := by
  have hgave : Gave ⟨last, 0, 0⟩ [] := ⟨by simp, by simp, fun j hpos hle => absurd hpos (Nat.not_lt_of_le hle)⟩
  simpa using hgave.nodup_iff List.nodup_nil

end Stamper

end lib
