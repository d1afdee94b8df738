import Mathlib.Tactic.Linarith
import Mathlib.Algebra.Order.Group.MinMax
import Mathlib.Tactic.Ring
import Mathlib.Tactic.Positivity

namespace lib

variable {K : Type*} [Field K] [LinearOrder K]

/-- A value that lies within `radius` of `mid`. -/
def Near (mid radius x : K) : Prop := |x - mid| ≤ radius

variable [IsStrictOrderedRing K] {mid radius x mid' radius' x' : K}

theorem near_iff : Near mid radius x ↔ mid - radius ≤ x ∧ x ≤ mid + radius := by
  rw [Near, abs_le]
  constructor <;> rintro ⟨hlow, hhigh⟩ <;> constructor <;> linarith

theorem near_self (hradius : 0 ≤ radius) : Near mid radius mid := by
  rw [near_iff]
  constructor <;> linarith

theorem Near.add (h : Near mid radius x) (h' : Near mid' radius' x') : Near (mid + mid') (radius + radius') (x + x') := by
  rw [near_iff] at *
  constructor <;> linarith

theorem Near.sub (h : Near mid radius x) (h' : Near mid' radius' x') : Near (mid - mid') (radius + radius') (x - x') := by
  rw [near_iff] at *
  constructor <;> linarith

theorem Near.mul (factor : K) (h : Near mid radius x) : Near (factor * mid) (|factor| * radius) (factor * x) := by
  rw [Near, ← mul_sub, abs_mul]
  exact mul_le_mul_of_nonneg_left h (abs_nonneg factor)

theorem Near.abs (h : Near mid radius x) : Near |mid| radius |x| := (abs_abs_sub_abs_le x mid).trans h

theorem near_of_between {low high : K} (hlow : low ≤ x) (hhigh : x ≤ high) (hstart : mid - radius ≤ low)
    (hend : high ≤ mid + radius) : Near mid radius x :=
  near_iff.mpr ⟨hstart.trans hlow, hhigh.trans hend⟩

theorem near_intCast_iff {mid x : ℤ} {radius : ℕ} : Near (mid : K) (radius : K) (x : K) ↔ mid - radius ≤ x ∧ x ≤ mid + radius := by
  rw [near_iff]
  norm_cast

end lib

namespace lib

variable {K : Type*} [Field K] [LinearOrder K]

/-- A clock that gains or loses at most the part `drift` of the time that passes. -/
structure Clock (drift : K) where
  read : K → K
  bounded : ∀ a b, a ≤ b → |read b - read a - (b - a)| ≤ drift * (b - a)

/-- A value is read as the multiple of the resolution below it. -/
structure Truncated (resolution value reading : K) : Prop where
  le : reading ≤ value
  lt : value < reading + resolution
  multiple : ∃ k : ℤ, reading = k * resolution

variable [IsStrictOrderedRing K] {drift : K}

namespace Clock

theorem elapsed_ge (clock : Clock drift) {a b : K} (h : a ≤ b) : (1 - drift) * (b - a) ≤ clock.read b - clock.read a := by
  have hbound := (abs_le.mp (clock.bounded a b h)).1
  linarith

theorem read_mono (clock : Clock drift) (hdrift : drift ≤ 1) {a b : K} (h : a ≤ b) : clock.read a ≤ clock.read b := by
  have hrate : 0 ≤ (1 - drift) * (b - a) := mul_nonneg (by linarith) (by linarith)
  linarith [clock.elapsed_ge h]

/-- The clock that loses the part `loss` of the time until `turn`, and nothing after it. -/
def slowUntil {loss : K} (hloss : 0 ≤ loss) (hle : loss ≤ drift) (turn offset : K) : Clock drift where
  read t := offset + t - loss * min t turn
  bounded a b h := by
    have hmono : min a turn ≤ min b turn := min_le_min_right turn h
    have hshort : min b turn - min a turn ≤ b - a := by
      obtain hb | hb := le_total b turn <;> obtain ha | ha := le_total a turn <;> simp only [hb, ha, min_eq_left, min_eq_right] <;>
        linarith
    have hlost : offset + b - loss * min b turn - (offset + a - loss * min a turn) - (b - a) =
        -(loss * (min b turn - min a turn)) := by ring
    rw [hlost, abs_neg, abs_of_nonneg (mul_nonneg hloss (by linarith))]
    exact mul_le_mul hle hshort (by linarith) (hloss.trans hle)

@[simp] theorem slowUntil_read {loss : K} (hloss : 0 ≤ loss) (hle : loss ≤ drift) (turn offset t : K) :
    (slowUntil hloss hle turn offset).read t = offset + t - loss * min t turn := rfl

end Clock

theorem Truncated.resolution_pos {resolution value reading : K} (h : Truncated resolution value reading) : 0 < resolution := by
  linarith [h.le, h.lt]

theorem Truncated.mono {resolution value reading value' reading' : K} (h : Truncated resolution value reading)
    (h' : Truncated resolution value' reading') (hle : value ≤ value') : reading ≤ reading' := by
  obtain ⟨k, hk⟩ := h.multiple
  obtain ⟨k', hk'⟩ := h'.multiple
  have hpos := h.resolution_pos
  by_contra hlt
  have hmul : (k' : K) * resolution < k * resolution := by linarith
  have hint : k' + 1 ≤ k := by exact_mod_cast lt_of_mul_lt_mul_right hmul hpos.le
  have hstep : ((k' + 1 : ℤ) : K) * resolution ≤ k * resolution := mul_le_mul_of_nonneg_right (by exact_mod_cast hint) hpos.le
  push_cast at hstep
  linarith [h.le, h'.lt]

theorem exists_step {x : K} (hx : 0 < x) (a : K) : ∃ most : K, 0 < most ∧ ∀ step, 0 ≤ step → step ≤ most → step * a < x := by
  have hpos : 0 < |a| + 1 := by positivity
  refine ⟨x / (|a| + 1), by positivity, fun step hstep hle => ?_⟩
  calc step * a ≤ step * |a| := mul_le_mul_of_nonneg_left (le_abs_self a) hstep
    _ ≤ x / (|a| + 1) * |a| := mul_le_mul_of_nonneg_right hle (abs_nonneg a)
    _ < x / (|a| + 1) * (|a| + 1) := by
      have hstep := div_pos hx hpos
      linarith
    _ = x := div_mul_cancel₀ x hpos.ne'

theorem exists_rate {slow most a x b y step : K} (hslow : 0 ≤ slow) (hmost : slow < most) (ha : slow * a < x) (hb : slow * b < y)
    (hstep : 0 < step) : ∃ rate spare, slow ≤ rate ∧ 0 < rate ∧ rate ≤ most ∧ 0 < spare ∧ spare ≤ step ∧ rate * a ≤ x - spare ∧
      rate * b < y - spare := by
  obtain ⟨first, hfirst, hkeeps⟩ := exists_step (half_pos (sub_pos.mpr ha)) a
  obtain ⟨second, hsecond, hkeeps'⟩ := exists_step (half_pos (sub_pos.mpr hb)) b
  have hmore : 0 < min (most - slow) (min first second) := lt_min (sub_pos.mpr hmost) (lt_min hfirst hsecond)
  have hless : min (most - slow) (min first second) ≤ most - slow := min_le_left _ _
  have hxa := hkeeps _ hmore.le ((min_le_right _ _).trans (min_le_left _ _))
  have hyb := hkeeps' _ hmore.le ((min_le_right _ _).trans (min_le_right _ _))
  generalize min (most - slow) (min first second) = more at *
  refine ⟨slow + more, min step (min ((x - slow * a) / 2) ((y - slow * b) / 2)), by linarith, by linarith, by linarith,
    lt_min hstep (lt_min (half_pos (sub_pos.mpr ha)) (half_pos (sub_pos.mpr hb))), min_le_left _ _, ?_, ?_⟩
  · have hspare : min step (min ((x - slow * a) / 2) ((y - slow * b) / 2)) ≤ (x - slow * a) / 2 :=
      (min_le_right _ _).trans (min_le_left _ _)
    linarith [add_mul slow more a]
  · have hspare : min step (min ((x - slow * a) / 2) ((y - slow * b) / 2)) ≤ (y - slow * b) / 2 :=
      (min_le_right _ _).trans (min_le_right _ _)
    linarith [add_mul slow more b]

end lib
