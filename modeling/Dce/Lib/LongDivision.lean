import Mathlib.Tactic.Ring
import Mathlib.Tactic.Linarith

namespace lib

/-- The digit of the quotient of the digits of `u` and `next` by the two digits `v1` and `v2`, in base `b`. -/
def digit (b v1 v2 u next : ℕ) : ℕ := (u * b + next) / (v1 * b + v2)

variable {b v1 v2 u next trial : ℕ}

theorem digit_lt (hnext : next < b) (hu : u < v1 * b + v2) : digit b v1 v2 u next < b := by
  refine Nat.div_lt_of_lt_mul ?_
  calc u * b + next < u * b + b := by omega
    _ = (u + 1) * b := by ring
    _ ≤ (v1 * b + v2) * b := Nat.mul_le_mul_right b hu

theorem digit_mul_le (hnext : next < b) : digit b v1 v2 u next * v1 ≤ u := by
  have hquot : digit b v1 v2 u next * (v1 * b + v2) ≤ u * b + next := Nat.div_mul_le_self _ _
  have hlead : digit b v1 v2 u next * v1 * b ≤ u * b + next := by
    calc digit b v1 v2 u next * v1 * b ≤ digit b v1 v2 u next * (v1 * b + v2) := by
          rw [Nat.mul_add, Nat.mul_assoc]
          exact Nat.le_add_right _ _
      _ ≤ u * b + next := hquot
  by_contra hlt
  have hmore : (u + 1) * b ≤ digit b v1 v2 u next * v1 * b := Nat.mul_le_mul_right b (by omega)
  rw [Nat.add_mul, Nat.one_mul] at hmore
  omega

theorem digit_lt_trial_iff (hv : 0 < v1 * b + v2) (htrial : v1 * trial ≤ u) :
    digit b v1 v2 u next < trial ↔ (u - v1 * trial) * b + next < v2 * trial := by
  rw [digit, Nat.div_lt_iff_lt_mul hv]
  obtain ⟨rest, rfl⟩ := Nat.exists_eq_add_of_le htrial
  have hleft : (v1 * trial + rest) * b + next = v1 * trial * b + (rest * b + next) := by ring
  have hright : trial * (v1 * b + v2) = v1 * trial * b + v2 * trial := by ring
  rw [hleft, hright, Nat.add_sub_cancel_left]
  exact Nat.add_lt_add_iff_left

theorem le_digit_of_rest_large (hv : 0 < v1 * b + v2) (hv2 : v2 < b) (hb : trial ≤ b) (htrial : v1 * trial ≤ u)
    (hrest : b ≤ u - v1 * trial) : trial ≤ digit b v1 v2 u next := by
  rw [← Nat.not_lt, digit_lt_trial_iff hv htrial, Nat.not_lt]
  calc v2 * trial ≤ b * b := Nat.mul_le_mul hv2.le hb
    _ ≤ (u - v1 * trial) * b := Nat.mul_le_mul_right b hrest
    _ ≤ (u - v1 * trial) * b + next := Nat.le_add_right _ _

theorem two_digits (v u next next' : ℕ) :
    (u * b + next) / v * b + ((u * b + next) % v * b + next') / v = ((u * b + next) * b + next') / v ∧
      ((u * b + next) % v * b + next') % v = ((u * b + next) * b + next') % v := by
  have hsplit : (u * b + next) * b + next' = (u * b + next) % v * b + next' + v * ((u * b + next) / v * b) := by
    have hdiv := Nat.mod_add_div (u * b + next) v
    calc (u * b + next) * b + next' = ((u * b + next) % v + v * ((u * b + next) / v)) * b + next' := by rw [hdiv]
      _ = (u * b + next) % v * b + next' + v * ((u * b + next) / v * b) := by ring
  rw [hsplit]
  constructor
  · obtain rfl | hv := Nat.eq_zero_or_pos v
    · simp
    · rw [Nat.add_mul_div_left _ _ hv, Nat.add_comm]
  · rw [Nat.add_mul_mod_self_left]

end lib
