import Mathlib.Data.List.Basic

namespace lib

namespace Glob

variable {α : Type}

/-- What stands for a part of a string: any sequence, or one element that passes a test. -/
inductive Token (α : Type) where
  | star
  | fit (test : α → Bool)

/-- The strings of a pattern. -/
inductive Matches : List (Token α) → List α → Prop where
  | nil : Matches [] []
  | fit {test : α → Bool} {tokens : List (Token α)} {a : α} {string : List α} :
    test a = true → Matches tokens string → Matches (.fit test :: tokens) (a :: string)
  | skip {tokens : List (Token α)} {string : List α} : Matches tokens string → Matches (.star :: tokens) string
  | more {tokens : List (Token α)} {a : α} {string : List α} :
    Matches (.star :: tokens) string → Matches (.star :: tokens) (a :: string)

/-- A string begins with elements that pass the tests. -/
def fits : List (α → Bool) → List α → Bool
  | [], _ => true
  | _ :: _, [] => false
  | test :: tests, a :: string => test a && fits tests string

variable {tokens : List (Token α)} {string : List α} {tests : List (α → Bool)}

theorem matches_nil_iff : Matches [] string ↔ string = [] := by
  constructor
  · intro h
    cases h
    rfl
  · rintro rfl
    exact .nil

theorem matches_star_iff : Matches (.star :: tokens) string ↔ ∃ n, Matches tokens (string.drop n) := by
  constructor
  · intro h
    generalize hpattern : Token.star :: tokens = pattern at h
    induction h with
    | nil => cases hpattern
    | fit _ _ _ => cases hpattern
    | skip h _ =>
      cases hpattern
      exact ⟨0, h⟩
    | more _ ih =>
      obtain ⟨n, h⟩ := ih hpattern
      exact ⟨n + 1, h⟩
  · rintro ⟨n, h⟩
    induction string generalizing n with
    | nil => exact .skip (by simpa using h)
    | cons a string ih =>
      cases n with
      | zero => exact .skip h
      | succ n => exact .more (ih n h)

theorem matches_star_star_iff : Matches (.star :: .star :: tokens) string ↔ Matches (.star :: tokens) string := by
  constructor
  · intro h
    obtain ⟨n, h⟩ := matches_star_iff.mp h
    obtain ⟨k, h⟩ := matches_star_iff.mp h
    rw [List.drop_drop] at h
    exact matches_star_iff.mpr ⟨_, h⟩
  · exact .skip

theorem matches_star_nil : Matches [.star] string := matches_star_iff.mpr ⟨string.length, by rw [List.drop_length]; exact .nil⟩

theorem fits_length (h : fits tests string = true) : tests.length ≤ string.length := by
  induction tests generalizing string with
  | nil => exact Nat.zero_le _
  | cons test tests ih =>
    cases string with
    | nil => cases h
    | cons a string =>
      rw [fits, Bool.and_eq_true] at h
      exact Nat.succ_le_succ (ih h.2)

theorem matches_fits_iff : Matches (tests.map .fit ++ tokens) string ↔
    fits tests string = true ∧ Matches tokens (string.drop tests.length) := by
  induction tests generalizing string with
  | nil => simp [fits]
  | cons test tests ih =>
    cases string with
    | nil =>
      simp only [List.map_cons, List.cons_append, fits, Bool.false_eq_true, false_and, iff_false]
      intro h
      cases h
    | cons a string =>
      rw [List.map_cons, List.cons_append, List.length_cons, List.drop_succ_cons, fits, Bool.and_eq_true, and_assoc, ← ih]
      constructor
      · intro h
        cases h with
        | fit htest hrest => exact ⟨htest, hrest⟩
      · rintro ⟨htest, hrest⟩
        exact .fit htest hrest

theorem fits_replicate (n : ℕ) : fits (List.replicate n fun _ => true) string = true ↔ n ≤ string.length := by
  induction n generalizing string with
  | zero => simp [fits]
  | succ n ih =>
    cases string with
    | nil => simp [List.replicate_succ, fits]
    | cons a string => simp [List.replicate_succ, fits, ih]

theorem matches_star_end_iff (n : ℕ) :
    Matches (.star :: (tests.map .fit ++ (List.replicate n fun _ => true).map .fit)) string ↔
      ∃ k, fits tests (string.drop k) = true ∧ (string.drop k).length = tests.length + n := by
  rw [matches_star_iff]
  refine exists_congr fun k => ?_
  rw [← List.append_nil ((List.replicate n fun _ => true).map Token.fit), matches_fits_iff, matches_fits_iff, matches_nil_iff,
    fits_replicate, List.length_replicate, List.drop_drop, List.drop_eq_nil_iff, List.length_drop]
  refine and_congr_right fun hfits => ?_
  have hlength := fits_length hfits
  simp only [List.length_drop] at hlength ⊢
  omega

end Glob

end lib
