import Mathlib.Algebra.Ring.Parity
import Mathlib.Data.Finset.Card

open Finset

namespace lib

/-- The votes of a set in which every voter counts two and the chair three. -/
def chairVotes {α : Type*} [DecidableEq α] (chair : α) (V : Finset α) : ℕ := 2 * V.card + if chair ∈ V then 1 else 0

/-- A majority with a casting vote: more than half of all votes but the chair's
extra one. -/
def ChairMajority {α : Type*} [DecidableEq α] (voters : Finset α) (chair : α) (V : Finset α) : Prop :=
  voters.card < chairVotes chair V

theorem halves_of_disjoint_majorities {α : Type*} [DecidableEq α] {voters V W : Finset α} {a b : α} (hV : V ⊆ voters)
    (hW : W ⊆ voters) (hVa : ChairMajority voters a V) (hWb : ChairMajority voters b W) (hdisjoint : Disjoint V W) :
    voters.card = 2 * V.card ∧ V ∪ W = voters ∧ a ∈ V ∧ b ∈ W := by
  have hcard := card_union_of_disjoint hdisjoint
  have hle : (V ∪ W).card ≤ voters.card := card_le_card (union_subset hV hW)
  unfold ChairMajority chairVotes at hVa hWb
  have ha : a ∈ V := by
    by_contra ha
    rw [if_neg ha] at hVa
    split at hWb <;> omega
  have hb : b ∈ W := by
    by_contra hb
    rw [if_neg hb] at hWb
    split at hVa <;> omega
  rw [if_pos ha] at hVa
  rw [if_pos hb] at hWb
  refine ⟨by omega, eq_of_subset_of_card_le (union_subset hV hW) (by omega), ha, hb⟩

theorem ChairMajority.inter_nonempty {α : Type*} [DecidableEq α] {voters V W : Finset α} {a : α} (hV : V ⊆ voters)
    (hW : W ⊆ voters) (hVa : ChairMajority voters a V) (hWa : ChairMajority voters a W) : (V ∩ W).Nonempty := by
  by_contra hempty
  have hdisjoint : Disjoint V W := disjoint_iff_inter_eq_empty.mpr (not_nonempty_iff_eq_empty.mp hempty)
  obtain ⟨_, _, haV, haW⟩ := halves_of_disjoint_majorities hV hW hVa hWa hdisjoint
  exact disjoint_left.mp hdisjoint haV haW

theorem majorities_meet_iff {α : Type*} [DecidableEq α] {voters left right : Finset α} (hleft : left ⊆ voters)
    (hright : right ⊆ voters) {a b : α} (ha : a ∈ left) (hb : b ∈ right) :
    (∀ V ⊆ left, ∀ W ⊆ right, ChairMajority voters a V → ChairMajority voters b W → (V ∩ W).Nonempty) ↔
      Odd voters.card ∨ a = b ∨ left ∪ right ≠ voters ∨
        voters.card < 2 * (insert a (voters \ right)).card ∨ voters.card < 2 * (insert b (voters \ left)).card := by
  constructor
  · intro hmeet
    by_contra hnot
    simp only [not_or, not_not, not_lt, Nat.not_odd_iff_even] at hnot
    obtain ⟨⟨k, hk⟩, hne, hunion, hneedA, hneedB⟩ := hnot
    -- `a`'s half holds what `right` lacks, and avoids `b`.
    have hlow : insert a (voters \ right) ⊆ left.erase b := by
      intro v hv
      rcases mem_insert.mp hv with rfl | hv
      · exact mem_erase.mpr ⟨hne, ha⟩
      · obtain ⟨hvv, hvr⟩ := mem_sdiff.mp hv
        refine mem_erase.mpr ⟨fun hvb => hvr (hvb ▸ hb), ?_⟩
        rcases mem_union.mp (hunion ▸ hvv) with hvl | hvr'
        · exact hvl
        · exact absurd hvr' hvr
    have hcompl : left.erase b = voters \ insert b (voters \ left) := by
      ext v
      simp only [mem_erase, mem_sdiff, mem_insert, not_or, not_and, not_not]
      constructor
      · rintro ⟨hvb, hvl⟩
        exact ⟨hleft hvl, hvb, fun _ => hvl⟩
      · rintro ⟨hvv, hvb, hvl⟩
        exact ⟨hvb, hvl hvv⟩
    have hhigh : k ≤ (left.erase b).card := by
      have hsub : insert b (voters \ left) ⊆ voters := insert_subset (hright hb) sdiff_subset
      rw [hcompl, card_sdiff_of_subset hsub]
      omega
    obtain ⟨V, hneed, hV, hVcard⟩ := exists_subsuperset_card_eq hlow (show _ ≤ k by omega) hhigh
    have hVleft : V ⊆ left := hV.trans (erase_subset b left)
    have hVvoters : V ⊆ voters := hVleft.trans hleft
    have hbV : b ∉ V := fun hbV => notMem_erase b left (hV hbV)
    have hWright : voters \ V ⊆ right := by
      intro v hv
      obtain ⟨hvv, hvV⟩ := mem_sdiff.mp hv
      by_contra hvr
      exact hvV (hneed (mem_insert_of_mem (mem_sdiff.mpr ⟨hvv, hvr⟩)))
    have hWcard : (voters \ V).card = k := by
      rw [card_sdiff_of_subset hVvoters]
      omega
    have hVa : ChairMajority voters a V := by
      unfold ChairMajority chairVotes
      rw [if_pos (hneed (mem_insert_self a _))]
      omega
    have hWb : ChairMajority voters b (voters \ V) := by
      unfold ChairMajority chairVotes
      rw [if_pos (mem_sdiff.mpr ⟨hright hb, hbV⟩)]
      omega
    obtain ⟨v, hv⟩ := hmeet V hVleft _ hWright hVa hWb
    exact (mem_sdiff.mp (mem_inter.mp hv).2).2 (mem_inter.mp hv).1
  · intro hcond V hV W hW hVa hWb
    by_contra hempty
    have hdisjoint : Disjoint V W := disjoint_iff_inter_eq_empty.mpr (not_nonempty_iff_eq_empty.mp hempty)
    obtain ⟨hhalf, hunion, haV, hbW⟩ :=
      halves_of_disjoint_majorities (hV.trans hleft) (hW.trans hright) hVa hWb hdisjoint
    have hother : voters.card = 2 * W.card := by
      have hcard := card_union_of_disjoint hdisjoint
      rw [hunion] at hcard
      omega
    -- whatever one side cannot count is in the other half
    have hneedA : insert a (voters \ right) ⊆ V := by
      refine insert_subset haV fun v hv => ?_
      obtain ⟨hvv, hvr⟩ := mem_sdiff.mp hv
      exact (mem_union.mp (hunion ▸ hvv)).resolve_right fun hvW => hvr (hW hvW)
    have hneedB : insert b (voters \ left) ⊆ W := by
      refine insert_subset hbW fun v hv => ?_
      obtain ⟨hvv, hvl⟩ := mem_sdiff.mp hv
      exact (mem_union.mp (hunion ▸ hvv)).resolve_left fun hvV => hvl (hV hvV)
    have hcardA := card_le_card hneedA
    have hcardB := card_le_card hneedB
    rcases hcond with hodd | hab | hcover | hmoreA | hmoreB
    · rw [hhalf] at hodd
      exact Nat.not_odd_iff_even.mpr (even_two_mul V.card) hodd
    · exact disjoint_left.mp hdisjoint haV (hab ▸ hbW)
    · exact hcover (subset_antisymm (union_subset hleft hright) (hunion ▸ union_subset_union hV hW))
    · omega
    · omega

end lib
