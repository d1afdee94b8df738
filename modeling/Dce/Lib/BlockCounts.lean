import Dce.Lib.Runs
import Mathlib.Algebra.BigOperators.Ring.Finset
import Mathlib.Algebra.BigOperators.Intervals
import Mathlib.Algebra.Order.Ring.Int
import Mathlib.Order.Interval.Finset.Nat
import Mathlib.Tactic.Ring

open Finset

namespace lib

theorem sum_shift {f g : ℕ → ℤ} {n s c : ℕ} {d : ℤ} (hend : s + c ≤ n)
    (hshift : ∀ b < n, g b = f b + if s ≤ b ∧ b < s + c then d else 0) :
    ∑ b ∈ range n, g b = ∑ b ∈ range n, f b + c * d := by
  have hplaces : (range n).filter (fun b => s ≤ b ∧ b < s + c) = Ico s (s + c) := by
    ext b
    rw [mem_filter, mem_range, mem_Ico]
    omega
  calc ∑ b ∈ range n, g b = ∑ b ∈ range n, (f b + if s ≤ b ∧ b < s + c then d else 0) :=
        sum_congr rfl fun b hb => hshift b (mem_range.mp hb)
    _ = ∑ b ∈ range n, f b + ∑ b ∈ Ico s (s + c), d := by rw [sum_add_distrib, ← sum_filter, hplaces]
    _ = ∑ b ∈ range n, f b + c * d := by rw [sum_const, Nat.card_Ico, Nat.add_sub_cancel_left, nsmul_eq_mul]

theorem sum_groups (f : ℕ → ℤ) (n c : ℕ) : ∑ k ∈ range (n * c), f k = ∑ i ∈ range n, ∑ j ∈ range c, f (i * c + j) := by
  induction n with
  | zero => rw [Nat.zero_mul, sum_range_zero, sum_range_zero]
  | succ n ih => rw [Nat.succ_mul, sum_range_add, ih, sum_range_succ]

section

variable (P : ℕ → Prop) [DecidablePred P] (m : ℕ)

/-- The free places in a block of `m` places. -/
def freeIn (b : ℕ) : ℤ := ∑ j ∈ range m, if P (b * m + j) then 1 else 0

def wholeAt (b : ℕ) : ℤ := if Run P (b * m) m then 1 else 0

/-- What a block adds to the number of free places in blocks that are used in part. -/
def partAt (b : ℕ) : ℤ := if Run P (b * m) m then 0 else freeIn P m b

def wholeBlocks (n : ℕ) : ℤ := ∑ b ∈ range n, wholeAt P m b

/-- The number of free places in blocks that are used in part. -/
def partPlaces (n : ℕ) : ℤ := ∑ b ∈ range n, partAt P m b

theorem wholeBlocks_eq_card (n : ℕ) : wholeBlocks P m n = ((range n).filter fun b => Run P (b * m) m).card := by
  rw [wholeBlocks, ← sum_boole]
  rfl

theorem partPlaces_eq_card (n : ℕ) :
    partPlaces P m n = ((range (n * m)).filter fun k => P k ∧ ¬Run P (k / m * m) m).card := by
  rw [← sum_boole, sum_groups]
  refine sum_congr rfl fun b _ => ?_
  rw [partAt, freeIn]
  by_cases hrun : Run P (b * m) m
  · rw [if_pos hrun]
    refine (sum_eq_zero fun j hj => if_neg ?_).symm
    have hdiv := Nat.div_eq_of_lt (mem_range.mp hj)
    have hpos := (Nat.zero_le j).trans_lt (mem_range.mp hj)
    rw [Nat.mul_comm b m, Nat.mul_add_div hpos, hdiv, Nat.add_zero]
    exact fun hpart => hpart.2 hrun
  · rw [if_neg hrun]
    refine sum_congr rfl fun j hj => ?_
    have hdiv := Nat.div_eq_of_lt (mem_range.mp hj)
    have hpos := (Nat.zero_le j).trans_lt (mem_range.mp hj)
    have hblock : (b * m + j) / m = b := by rw [Nat.mul_comm b m, Nat.mul_add_div hpos, hdiv, Nat.add_zero]
    rw [hblock]
    exact if_congr (by simp [hrun]) rfl rfl

end

section

variable {P Q : ℕ → Prop} [DecidablePred P] [DecidablePred Q] {m b n : ℕ}

def AgreeOn (P Q : ℕ → Prop) (m b : ℕ) : Prop := ∀ j < m, P (b * m + j) ↔ Q (b * m + j)

namespace AgreeOn

variable (hab : AgreeOn P Q m b)
include hab

omit [DecidablePred P] [DecidablePred Q] in
theorem run_iff : Run P (b * m) m ↔ Run Q (b * m) m := forall₂_congr fun j hj => hab j hj

theorem wholeAt : wholeAt P m b = wholeAt Q m b := if_congr hab.run_iff rfl rfl

theorem freeIn : freeIn P m b = freeIn Q m b := sum_congr rfl fun j hj => if_congr (hab j (mem_range.mp hj)) rfl rfl

theorem partAt : partAt P m b = partAt Q m b := if_congr hab.run_iff rfl hab.freeIn

end AgreeOn

theorem wholeBlocks_congr (hab : ∀ b < n, AgreeOn P Q m b) : wholeBlocks P m n = wholeBlocks Q m n :=
  sum_congr rfl fun b hb => (hab b (mem_range.mp hb)).wholeAt

theorem partPlaces_congr (hab : ∀ b < n, AgreeOn P Q m b) : partPlaces P m n = partPlaces Q m n :=
  sum_congr rfl fun b hb => (hab b (mem_range.mp hb)).partAt

omit [DecidablePred P] in
theorem place_in_group (i c j : ℕ) : P ((i * c + b) * m + j) ↔ P (i * (c * m) + (b * m + j)) := by
  rw [Nat.add_mul, Nat.mul_assoc, Nat.add_assoc]

theorem wholeBlocks_groups (c : ℕ) : wholeBlocks P m (n * c) = ∑ i ∈ range n, wholeBlocks (fun k => P (i * (c * m) + k)) m c := by
  rw [wholeBlocks, sum_groups]
  exact sum_congr rfl fun i _ => sum_congr rfl fun b _ => if_congr (forall₂_congr fun j _ => place_in_group i c j) rfl rfl

theorem partPlaces_groups (c : ℕ) : partPlaces P m (n * c) = ∑ i ∈ range n, partPlaces (fun k => P (i * (c * m) + k)) m c := by
  rw [partPlaces, sum_groups]
  refine sum_congr rfl fun i _ => sum_congr rfl fun b _ => ?_
  exact if_congr (forall₂_congr fun j _ => place_in_group i c j) rfl
    (sum_congr rfl fun j _ => if_congr (place_in_group i c j) rfl rfl)

theorem freeIn_full (hfull : ∀ j < m, ¬P (b * m + j)) : freeIn P m b = 0 :=
  sum_eq_zero fun j hj => if_neg (hfull j (mem_range.mp hj))

theorem wholeAt_free (hfree : Run P (b * m) m) : wholeAt P m b = 1 := if_pos hfree

theorem partAt_free (hfree : Run P (b * m) m) : partAt P m b = 0 := if_pos hfree

theorem wholeAt_used (hused : ¬Run P (b * m) m) : wholeAt P m b = 0 := if_neg hused

theorem partAt_used (hused : ¬Run P (b * m) m) : partAt P m b = freeIn P m b := if_neg hused

omit [DecidablePred P] in
theorem not_run_of_full (hm : 0 < m) (hfull : ∀ j < m, ¬P (b * m + j)) : ¬Run P (b * m) m := fun hrun => hfull 0 hm (hrun 0 hm)

theorem wholeAt_full (hm : 0 < m) (hfull : ∀ j < m, ¬P (b * m + j)) : wholeAt P m b = 0 :=
  if_neg (not_run_of_full hm hfull)

theorem partAt_full (hm : 0 < m) (hfull : ∀ j < m, ¬P (b * m + j)) : partAt P m b = 0 :=
  (if_neg (not_run_of_full hm hfull)).trans (freeIn_full hfull)

theorem freeIn_free (hfree : Run P (b * m) m) : freeIn P m b = m := by
  rw [freeIn, sum_congr rfl fun j hj => if_pos (hfree j (mem_range.mp hj)), sum_const, card_range, nsmul_eq_mul, mul_one]

theorem freeIn_taken {s c : ℕ} (hend : s + c ≤ m) (hfree : ∀ j, s ≤ j → j < s + c → P (b * m + j))
    (hQ : ∀ j < m, Q (b * m + j) ↔ P (b * m + j) ∧ ¬(s ≤ j ∧ j < s + c)) : freeIn Q m b = freeIn P m b - c := by
  have hshift : ∀ j < m, (if P (b * m + j) then (1 : ℤ) else 0) =
      (if Q (b * m + j) then 1 else 0) + if s ≤ j ∧ j < s + c then 1 else 0 := by
    intro j hj
    by_cases hin : s ≤ j ∧ j < s + c
    · have hnot : ¬Q (b * m + j) := fun hq => ((hQ j hj).mp hq).2 hin
      rw [if_pos (hfree j hin.1 hin.2), if_neg hnot, if_pos hin, zero_add]
    · rw [if_neg hin, add_zero]
      exact if_congr ((hQ j hj).trans (and_iff_left hin)).symm rfl rfl
  have hsum := sum_shift hend hshift
  rw [freeIn, freeIn, hsum]
  ring

theorem wholeBlocks_of_block {b₀ : ℕ} (hb : b₀ < n) (hsame : ∀ b, b ≠ b₀ → AgreeOn P Q m b) :
    wholeBlocks Q m n = wholeBlocks P m n + (wholeAt Q m b₀ - wholeAt P m b₀) := by
  have hsum := sum_shift (f := wholeAt P m) (g := wholeAt Q m) (n := n) (s := b₀) (c := 1)
    (d := wholeAt Q m b₀ - wholeAt P m b₀) (by omega) fun b _ => by
      by_cases heq : b = b₀
      · rw [heq, if_pos (by omega)]
        ring
      · rw [if_neg (by omega), add_zero, (hsame b heq).wholeAt]
  rw [wholeBlocks, wholeBlocks, hsum]
  ring

theorem partPlaces_of_block {b₀ : ℕ} (hb : b₀ < n) (hsame : ∀ b, b ≠ b₀ → AgreeOn P Q m b) :
    partPlaces Q m n = partPlaces P m n + (partAt Q m b₀ - partAt P m b₀) := by
  have hsum := sum_shift (f := partAt P m) (g := partAt Q m) (n := n) (s := b₀) (c := 1)
    (d := partAt Q m b₀ - partAt P m b₀) (by omega) fun b _ => by
      by_cases heq : b = b₀
      · rw [heq, if_pos (by omega)]
        ring
      · rw [if_neg (by omega), add_zero, (hsame b heq).partAt]
  rw [partPlaces, partPlaces, hsum]
  ring

theorem counts_of_freed {s c : ℕ} (hm : 0 < m) (hend : s + c ≤ n) (hsame : ∀ b, ¬(s ≤ b ∧ b < s + c) → AgreeOn P Q m b)
    (hfull : ∀ b, s ≤ b → b < s + c → ∀ j < m, ¬P (b * m + j)) (hfree : ∀ b, s ≤ b → b < s + c → Run Q (b * m) m) :
    wholeBlocks Q m n = wholeBlocks P m n + c ∧ partPlaces Q m n = partPlaces P m n := by
  constructor
  · have hsum := sum_shift (f := wholeAt P m) (g := wholeAt Q m) (n := n) (d := 1) hend fun b _ => by
      by_cases hin : s ≤ b ∧ b < s + c
      · rw [if_pos hin, wholeAt_full hm (hfull b hin.1 hin.2), wholeAt_free (hfree b hin.1 hin.2), zero_add]
      · rw [if_neg hin, add_zero, (hsame b hin).wholeAt]
    rw [wholeBlocks, wholeBlocks, hsum, mul_one]
  · refine sum_congr rfl fun b _ => ?_
    by_cases hin : s ≤ b ∧ b < s + c
    · rw [partAt_full hm (hfull b hin.1 hin.2), partAt_free (hfree b hin.1 hin.2)]
    · exact (hsame b hin).partAt.symm

end

end lib
