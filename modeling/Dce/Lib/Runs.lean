import Mathlib.Data.Nat.Basic
import Mathlib.Order.Basic

namespace lib

section Passage

variable {σ ρ α β : Type} {obs : σ → ρ} {r r' r'' : ρ}

/-- A computation takes what is observed of the state from one value to another, whichever result it has. -/
def Passes (obs : σ → ρ) (r : ρ) (p : StateM σ α) (r' : ρ) : Prop := ∀ s, obs s = r → obs (p s).2 = r'

namespace Passes

theorem pure (a : α) : Passes obs r (Pure.pure a : StateM σ α) r := fun _ hs => hs

theorem bind {p : StateM σ α} {f : α → StateM σ β} (hp : Passes obs r p r') (hf : ∀ a, Passes obs r' (f a) r'') :
    Passes obs r (p >>= f) r'' := fun s hs => hf _ _ (hp s hs)

theorem ite {c : Prop} [Decidable c] {p q : StateM σ α} (hp : c → Passes obs r p r') (hq : ¬ c → Passes obs r q r') :
    Passes obs r (if c then p else q) r' := by
  by_cases hc : c
  · rw [if_pos hc]
    exact hp hc
  · rw [if_neg hc]
    exact hq hc

end Passes

end Passage

variable {P : ℕ → Prop} {lo hi s n t : ℕ}

/-- `n` places in a row that all have the property. -/
def Run (P : ℕ → Prop) (s n : ℕ) : Prop := ∀ k < n, P (s + k)

instance [DecidablePred P] : Decidable (Run P s n) := inferInstanceAs (Decidable (∀ k < n, P (s + k)))

namespace Run

theorem place (h : Run P s n) {k : ℕ} (hle : s ≤ k) (hlt : k < s + n) : P k := by
  have hk := h (k - s) (by omega)
  rwa [Nat.add_sub_cancel' hle] at hk

theorem of_places (h : ∀ k, s ≤ k → k < s + n → P k) : Run P s n := fun k hk => h (s + k) (by omega) (by omega)

theorem part (h : Run P s n) {s' n' : ℕ} (hle : s ≤ s') (hend : s' + n' ≤ s + n) : Run P s' n' :=
  of_places fun _ hk hlt => h.place (by omega) (by omega)

theorem join (h : Run P s n) {n' : ℕ} (h' : Run P (s + n) n') : Run P s (n + n') := by
  refine of_places fun k hk hlt => ?_
  rcases Nat.lt_or_ge k (s + n) with hfirst | hlast
  · exact h.place hk hfirst
  · exact h'.place hlast (by omega)

theorem imp {Q : ℕ → Prop} (h : Run P s n) (hQ : ∀ k, s ≤ k → k < s + n → P k → Q k) : Run Q s n :=
  of_places fun k hk hlt => hQ k hk hlt (h.place hk hlt)

end Run

/-- The run that ends at `hi` and cannot be made longer towards the front; `lo` is as far as it may reach. -/
structure Tail (P : ℕ → Prop) (lo hi t : ℕ) : Prop where
  le : lo + t ≤ hi
  run : Run P (hi - t) t
  stops : lo + t < hi → ¬P (hi - t - 1)

namespace Tail

theorem start : Tail P lo lo 0 := ⟨by omega, fun _ hk => absurd hk (by omega), fun h => absurd h (by omega)⟩

theorem blank (hle : lo ≤ hi) (h : lo < hi → ¬P (hi - 1)) : Tail P lo hi 0 :=
  ⟨by omega, fun _ hk => absurd hk (by omega), h⟩

theorem le_of_run (h : Tail P lo hi t) (hrun : Run P s n) (hlo : lo ≤ s) (hlt : s < hi) (hend : hi ≤ s + n) :
    hi - t ≤ s := by
  by_contra hnot
  have hle := h.le
  exact h.stops (by omega) (hrun.place (by omega) (by omega))

theorem extend (h : Tail P lo hi t) (hrun : Run P hi n) : Tail P lo (hi + n) (t + n) where
  le := by have hle := h.le; omega
  run := by
    have hle := h.le
    have hstart : hi + n - (t + n) = hi - t := by omega
    have hnext : hi - t + t = hi := by omega
    rw [hstart]
    exact h.run.join (by rwa [hnext])
  stops hlt := by
    have hstart : hi + n - (t + n) - 1 = hi - t - 1 := by omega
    rw [hstart]
    exact h.stops (by omega)

end Tail

end lib
