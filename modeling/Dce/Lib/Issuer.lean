import Mathlib.Data.List.Basic
import Mathlib.Order.Lattice

namespace lib

/-- A source of increasing stamps that follows a clock: the last value it took from outside,
and the greatest value it gave or took. -/
structure Issuer (α : Type*) where
  last : α
  next : α
  deriving DecidableEq, Repr

namespace Issuer

/-- A value is learned from another source, or a stamp is asked for while the clock reads `now`. -/
inductive Call (α : Type*) where
  | learn (t : α)
  | issue (now : α)
  deriving DecidableEq, Repr

variable {α : Type*} [LinearOrder α]

/-- The value a call takes from outside: one past all values of the source. -/
def taken (s : Issuer α) : Call α → Option α
  | .learn t | .issue t => if s.next < t then some t else none

/-- The stamp a call gives. A clock between the last value and the next one has the next one bumped. -/
def given (bump : α → α) (s : Issuer α) : Call α → Option α
  | .learn _ => none
  | .issue now => if s.next < now then some now else if s.last ≤ now then some (bump s.next) else none

def after (bump : α → α) (s : Issuer α) (c : Call α) : Issuer α :=
  match taken s c with
  | some t => { last := t, next := t }
  | none => { s with next := (given bump s c).getD s.next }

/-- The value a call makes known: the one learned, the stamp given, or the greatest value so far when none is. -/
def seen (bump : α → α) (s : Issuer α) : Call α → α
  | .learn t => t
  | .issue now => (given bump s (.issue now)).getD s.next

def run (bump : α → α) (s : Issuer α) (calls : List (Call α)) : Issuer α := calls.foldl (after bump) s

def known (bump : α → α) : Issuer α → List (Call α) → List α
  | _, [] => []
  | s, c :: calls => seen bump s c :: known bump (after bump s c) calls

/-- The values a run of calls takes from outside, in order. -/
def takes (bump : α → α) : Issuer α → List (Call α) → List α
  | _, [] => []
  | s, c :: calls => (taken s c).toList ++ takes bump (after bump s c) calls

variable {bump : α → α} {s : Issuer α} {c : Call α} {calls : List (Call α)} {now t u : α}

theorem taken_learn_of_lt (h : s.next < t) : taken s (.learn t) = some t := if_pos h

theorem taken_learn_of_le (h : t ≤ s.next) : taken s (.learn t) = none := if_neg (not_lt.mpr h)

theorem taken_issue_of_lt (h : s.next < now) : taken s (.issue now) = some now := if_pos h

theorem taken_issue_of_le (h : now ≤ s.next) : taken s (.issue now) = none := if_neg (not_lt.mpr h)

theorem given_issue_of_lt (h : s.next < now) : given bump s (.issue now) = some now := if_pos h

theorem given_issue_between (h : now ≤ s.next) (hback : s.last ≤ now) :
    given bump s (.issue now) = some (bump s.next) := by
  rw [given, if_neg (not_lt.mpr h), if_pos hback]

theorem given_issue_behind (h : now ≤ s.next) (hback : now < s.last) : given bump s (.issue now) = none := by
  rw [given, if_neg (not_lt.mpr h), if_neg (not_le.mpr hback)]

theorem given_gt (hbump : ∀ a, a < bump a) (hgiven : given bump s c = some u) : s.next < u := by
  cases c with
  | learn t => simp [given] at hgiven
  | issue now =>
    rw [given] at hgiven
    split_ifs at hgiven with hahead hback
    · obtain rfl : now = u := by simpa using hgiven
      exact hahead
    · obtain rfl : bump s.next = u := by simpa using hgiven
      exact hbump s.next

theorem given_eq_none_iff (hle : s.last ≤ s.next) : given bump s (.issue now) = none ↔ now < s.last := by
  rw [given]
  split_ifs with hahead hback
  · simpa using hle.trans hahead.le
  · simpa using hback
  · simpa using not_le.mp hback

theorem given_of_taken (htaken : taken s (.issue now) = some t) : given bump s (.issue now) = some t := by
  by_cases hahead : s.next < now
  · rw [taken_issue_of_lt hahead] at htaken
    rw [given_issue_of_lt hahead, htaken]
  · simp [taken_issue_of_le (not_lt.mp hahead)] at htaken

theorem after_of_taken (htaken : taken s c = some t) : after bump s c = { last := t, next := t } := by
  rw [after, htaken]

theorem after_of_not_taken (hnone : taken s c = none) :
    after bump s c = { s with next := (given bump s c).getD s.next } := by
  rw [after, hnone]

theorem taken_gt (htaken : taken s c = some t) : s.next < t := by
  cases c <;>
  · rw [taken] at htaken
    split_ifs at htaken with hahead
    obtain rfl : _ = t := by simpa using htaken
    exact hahead

theorem next_after_of_given (hgiven : given bump s c = some u) : (after bump s c).next = u := by
  cases htaken : taken s c with
  | none => simp [after_of_not_taken htaken, hgiven]
  | some t =>
    cases c with
    | learn t => simp [given] at hgiven
    | issue now =>
      obtain rfl : t = u := by simpa [given_of_taken htaken] using hgiven
      rw [after_of_taken htaken]

theorem next_le_after (hbump : ∀ a, a < bump a) : s.next ≤ (after bump s c).next := by
  cases htaken : taken s c with
  | some t => simpa [after_of_taken htaken] using (taken_gt htaken).le
  | none =>
    cases hgiven : given bump s c with
    | none => simp [after_of_not_taken htaken, hgiven]
    | some u => simpa [next_after_of_given hgiven] using (given_gt hbump hgiven).le

theorem last_le_next_after (hbump : ∀ a, a < bump a) (hle : s.last ≤ s.next) :
    (after bump s c).last ≤ (after bump s c).next := by
  cases htaken : taken s c with
  | some t => simp [after_of_taken htaken]
  | none =>
    have hnext := next_le_after (s := s) (c := c) hbump
    rw [after_of_not_taken htaken] at hnext ⊢
    exact hle.trans hnext

theorem last_after : (after bump s c).last = (taken s c).toList.getLastD s.last := by
  cases htaken : taken s c with
  | some t => simp [after_of_taken htaken]
  | none => simp [after_of_not_taken htaken]

section

variable (hbump : ∀ a, a < bump a)

include hbump

theorem seen_le_next_after : seen bump s c ≤ (after bump s c).next := by
  cases c with
  | issue now =>
    cases hgiven : given bump s (.issue now) with
    | some u => rw [seen, hgiven, next_after_of_given hgiven, Option.getD_some]
    | none => simpa [seen, hgiven] using next_le_after hbump
  | learn t =>
    by_cases hahead : s.next < t
    · rw [seen, after_of_taken (taken_learn_of_lt hahead)]
    · have hle : t ≤ s.next := not_lt.mp hahead
      rw [seen, after_of_not_taken (taken_learn_of_le hle)]
      exact hle

theorem next_le_run : s.next ≤ (run bump s calls).next := by
  induction calls generalizing s with
  | nil => exact le_rfl
  | cons c calls ih => exact (next_le_after hbump).trans ih

theorem last_le_next_run (hle : s.last ≤ s.next) : (run bump s calls).last ≤ (run bump s calls).next := by
  induction calls generalizing s with
  | nil => exact hle
  | cons c calls ih => exact ih (last_le_next_after hbump hle)

theorem known_le_next_run (hmem : u ∈ known bump s calls) : u ≤ (run bump s calls).next := by
  induction calls generalizing s with
  | nil => simp [known] at hmem
  | cons c calls ih =>
    obtain rfl | hlater := List.mem_cons.mp hmem
    · exact (seen_le_next_after hbump).trans (next_le_run hbump)
    · exact ih hlater

end

theorem last_run : (run bump s calls).last = (takes bump s calls).getLastD s.last := by
  induction calls generalizing s with
  | nil => rfl
  | cons c calls ih =>
    rw [takes, run, List.foldl_cons, ← run, ih, last_after]
    cases taken s c with
    | none => rfl
    | some t => simp [List.getLast?_cons]

theorem known_lt_given (hbump : ∀ a, a < bump a) (hmem : u ∈ known bump s calls)
    (hgiven : given bump (run bump s calls) c = some t) : u < t :=
  (known_le_next_run hbump hmem).trans_lt (given_gt hbump hgiven)

theorem refused_iff (hbump : ∀ a, a < bump a) (hle : s.last ≤ s.next) :
    given bump (run bump s calls) (.issue now) = none ↔ now < (takes bump s calls).getLastD s.last := by
  rw [given_eq_none_iff (last_le_next_run hbump hle), last_run]

end Issuer

end lib
