import Mathlib.Algebra.Order.BigOperators.Group.List
import Mathlib.Algebra.Order.Group.Nat
import Mathlib.Algebra.Ring.Nat
import Mathlib.Data.Nat.Find

namespace lib

/-- How many of the first costs stay together below the limit. -/
def leading (limit : ℕ) (costs : List ℕ) : ℕ := Nat.findGreatest (fun k => (costs.take k).sum < limit) costs.length

def trailing (limit : ℕ) (costs : List ℕ) : ℕ := Nat.findGreatest (fun k => (costs.drop (costs.length - k)).sum < limit) costs.length

/-- Where the cut is when costs are taken from both ends in turn, as long as the limit allows. -/
def meeting (limit : ℕ) (costs : List ℕ) : ℕ :=
  if leading limit costs < (costs.length + 1) / 2 then leading limit costs
  else if trailing limit costs < costs.length / 2 then costs.length - trailing limit costs
  else (costs.length + 1) / 2

variable {limit : ℕ} {costs : List ℕ}

theorem leading_le : leading limit costs ≤ costs.length := Nat.findGreatest_le _

theorem trailing_le : trailing limit costs ≤ costs.length := Nat.findGreatest_le _

theorem sum_take_mono {i j : ℕ} (h : i ≤ j) : (costs.take i).sum ≤ (costs.take j).sum :=
  ((List.take_prefix_take_left h).sublist).sum_le_sum fun _ _ => Nat.zero_le _

theorem sum_drop_anti {i j : ℕ} (h : i ≤ j) : (costs.drop j).sum ≤ (costs.drop i).sum :=
  (List.drop_sublist_drop_left costs h).sum_le_sum fun _ _ => Nat.zero_le _

theorem le_leading_iff {k : ℕ} (hpos : 0 < k) (hk : k ≤ costs.length) :
    k ≤ leading limit costs ↔ (costs.take k).sum < limit := by
  constructor
  · intro hle
    have hgreatest := Nat.findGreatest_of_ne_zero (P := fun k => (costs.take k).sum < limit) (n := costs.length) rfl
      (Nat.ne_of_gt (hpos.trans_le hle))
    exact (sum_take_mono hle).trans_lt hgreatest
  · exact fun hlt => Nat.le_findGreatest hk hlt

theorem le_trailing_iff {k : ℕ} (hpos : 0 < k) (hk : k ≤ costs.length) :
    k ≤ trailing limit costs ↔ (costs.drop (costs.length - k)).sum < limit := by
  constructor
  · intro hle
    have hgreatest := Nat.findGreatest_of_ne_zero (P := fun k => (costs.drop (costs.length - k)).sum < limit)
      (n := costs.length) rfl (Nat.ne_of_gt (hpos.trans_le hle))
    exact (sum_drop_anti (Nat.sub_le_sub_left hle _)).trans_lt hgreatest
  · exact fun hlt => Nat.le_findGreatest hk hlt

theorem leading_eq_length_iff (limit : ℕ) (hpos : 0 < costs.length) :
    costs.length ≤ leading limit costs ↔ costs.length ≤ trailing limit costs := by
  rw [le_leading_iff hpos le_rfl, le_trailing_iff hpos le_rfl, List.take_length, Nat.sub_self, List.drop_zero]

theorem meeting_eq {k : ℕ} (hmet : costs.length ≤ min (k + 1) (leading limit costs) + min (k + 1) (trailing limit costs))
    (hbefore : min k (leading limit costs) + min k (trailing limit costs) < costs.length) :
    meeting limit costs = min (k + 1) (leading limit costs) := by
  unfold meeting
  split
  · omega
  · split <;> omega

theorem meeting_bounds (hn : 2 ≤ costs.length) (hcovered : costs.length ≤ leading limit costs + trailing limit costs) :
    0 < meeting limit costs ∧ meeting limit costs < costs.length := by
  have hpos : 0 < costs.length := by omega
  have hall := leading_eq_length_iff limit hpos
  have hleading : leading limit costs ≤ costs.length := leading_le
  have htrailing : trailing limit costs ≤ costs.length := trailing_le
  unfold meeting
  split
  · omega
  · split <;> omega

end lib
