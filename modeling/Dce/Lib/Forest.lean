import Mathlib.Order.Interval.Finset.Nat

namespace lib

variable {α : Type*}

/-- The links from `x` end at `r`, which points at itself. -/
inductive RootOf (up : α → α) : α → α → Prop
  | root {r : α} : up r = r → RootOf up r r
  | step {x r : α} : up x ≠ x → RootOf up (up x) r → RootOf up x r

namespace RootOf

variable {up up' : α → α} {x r r' r₁ r₂ : α}

theorem isRoot (h : RootOf up x r) : up r = r := by
  induction h with
  | root hr => exact hr
  | step _ _ ih => exact ih

theorem unique (h : RootOf up x r) (h' : RootOf up x r') : r = r' := by
  induction h with
  | root hr =>
    cases h' with
    | root _ => rfl
    | step hne _ => exact absurd hr hne
  | step hne _ ih =>
    cases h' with
    | root hr => exact absurd hr hne
    | step _ h' => exact ih h'

theorem self_iff (hr : up r = r) : RootOf up r r' ↔ r' = r :=
  ⟨fun h => h.unique (.root hr), fun h => by rw [h]; exact .root hr⟩

theorem up_iff : RootOf up (up x) r ↔ RootOf up x r := by
  constructor
  · intro h
    by_cases hx : up x = x
    · rwa [hx] at h
    · exact .step hx h
  · intro h
    cases h with
    | root hr => rw [hr]; exact .root hr
    | step _ h => exact h

theorem closed {S : α → Prop} (h : RootOf up x r) (hclosed : ∀ y, S y → S (up y)) (hx : S x) : S r := by
  induction h with
  | root _ => exact hx
  | step _ _ ih => exact ih (hclosed _ hx)

theorem congr {S : α → Prop} (h : RootOf up x r) (hclosed : ∀ y, S y → S (up y)) (hagree : ∀ y, S y → up' y = up y)
    (hx : S x) : RootOf up' x r := by
  induction h with
  | root hr => exact .root ((hagree _ hx).trans hr)
  | step hne _ ih =>
    have hup := hagree _ hx
    exact .step (by rwa [hup]) (by rw [hup]; exact ih (hclosed _ hx))

section

variable [DecidableEq α]

theorem link (h : RootOf up x r) (h₂ : up r₂ = r₂) (hne : r₁ ≠ r₂) (h₁ : up r₁ = r₁) :
    RootOf (Function.update up r₁ r₂) x (if r = r₁ then r₂ else r) := by
  have hroot₂ : RootOf (Function.update up r₁ r₂) r₂ r₂ := .root (by rw [Function.update_of_ne hne.symm, h₂])
  induction h with
  | @root r hr =>
    by_cases hrr₁ : r = r₁
    · subst hrr₁
      rw [if_pos rfl]
      exact .step (by rw [Function.update_self]; exact hne.symm) (by rwa [Function.update_self])
    · rw [if_neg hrr₁]
      exact .root (by rw [Function.update_of_ne hrr₁, hr])
  | @step x r hx _ ih =>
    have hxr₁ : x ≠ r₁ := fun hx₁ => hx (hx₁ ▸ h₁)
    exact .step (by rwa [Function.update_of_ne hxr₁]) (by rwa [Function.update_of_ne hxr₁])

end

theorem exists_iterate (h : RootOf up x r) : ∃ n, up^[n] x = r ∧ ∀ m < n, up (up^[m] x) ≠ up^[m] x := by
  induction h with
  | root _ => exact ⟨0, rfl, fun m hm => absurd hm (Nat.not_lt_zero m)⟩
  | @step x r hx _ ih =>
    obtain ⟨n, hn, hbefore⟩ := ih
    refine ⟨n + 1, hn, fun m hm => ?_⟩
    cases m with
    | zero => exact hx
    | succ m => exact hbefore m (Nat.lt_of_succ_lt_succ hm)

theorem length_le {S : Finset α} {n : ℕ} (hr : up r = r) (hn : up^[n] x = r) (hbefore : ∀ m < n, up (up^[m] x) ≠ up^[m] x)
    (hmem : ∀ m < n, up^[m] x ∈ S) : n ≤ S.card := by
  have hinj : Set.InjOn (fun m => up^[m] x) (Finset.range n : Set ℕ) := by
    have hlt : ∀ i j, i < j → j < n → up^[i] x ≠ up^[j] x := by
      intro i j hij hj heq
      -- what is met twice goes round for ever, and never meets the root
      have hround : up^[i + (n - j)] x = r := by
        rw [Nat.add_comm, Function.iterate_add_apply, heq, ← Function.iterate_add_apply, Nat.sub_add_cancel hj.le, hn]
      exact hbefore (i + (n - j)) (by omega) (by rw [hround, hr])
    intro i hi j hj heq
    rw [Finset.coe_range, Set.mem_Iio] at hi hj
    rcases Nat.lt_trichotomy i j with hij | hij | hij
    · exact absurd heq (hlt i j hij hj)
    · exact hij
    · exact absurd heq.symm (hlt j i hij hi)
  have hcard := Finset.card_le_card_of_injOn (fun m => up^[m] x) (fun m hm => hmem m (Finset.mem_range.mp hm)) hinj
  rwa [Finset.card_range] at hcard

end RootOf

/-- A loop that follows the links until something points at itself. -/
def follow [DecidableEq α] (up : α → α) : ℕ → α → α
  | 0, x => x
  | n + 1, x => if up x = x then x else follow up n (up x)

variable [DecidableEq α] {up : α → α} {x r : α}

theorem follow_of_iterate {n m : ℕ} (hm : n ≤ m) (hr : up r = r) (hn : up^[n] x = r) : follow up m x = r := by
  induction m generalizing n x with
  | zero =>
    obtain rfl := Nat.le_zero.mp hm
    exact hn
  | succ m ih =>
    rw [follow]
    split_ifs with hx
    · rw [← hn, Function.iterate_fixed hx]
    · cases n with
      | zero =>
        obtain rfl : x = r := hn
        exact absurd hr hx
      | succ n => exact ih (Nat.le_of_succ_le_succ hm) hn

theorem RootOf.follow {S : α → Prop} {T : Finset α} (h : RootOf up x r) (hclosed : ∀ y, S y → S (up y)) (hx : S x)
    (hT : ∀ y, S y → y ∈ T) {fuel : ℕ} (hfuel : T.card ≤ fuel) : follow up fuel x = r := by
  obtain ⟨n, hn, hbefore⟩ := h.exists_iterate
  have hS : ∀ m, S (up^[m] x) := by
    intro m
    induction m with
    | zero => exact hx
    | succ m ih => rw [Function.iterate_succ_apply']; exact hclosed _ ih
  exact follow_of_iterate ((length_le h.isRoot hn hbefore fun m _ => hT _ (hS m)).trans hfuel) h.isRoot hn

end lib
