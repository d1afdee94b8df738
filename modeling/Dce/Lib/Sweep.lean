import Mathlib.Data.List.Perm.Basic
import Mathlib.Order.Bounds.Basic

namespace lib

variable {β α : Type*}

/-- How many of the things that are counted up are open after a list. -/
def level (up : β → Bool) (l : List β) : ℤ := l.countP up - (l.countP fun b => !up b : ℕ)

/-- A sweep over a list, with the current level, the highest one so far and the first
element that it was reached with. It stops at the level that is wanted. -/
def sweep (up : β → Bool) (want : ℤ) : List β → ℤ → ℤ → Option β → ℤ × Option β
  | [], _, most, found => (most, found)
  | b :: rest, current, most, found =>
    if most < want then
      if up b then
        if current + 1 > most then sweep up want rest (current + 1) (current + 1) (some b)
        else sweep up want rest (current + 1) most found
      else sweep up want rest (current - 1) most found
    else (most, found)

variable {up : β → Bool} {want : ℤ}

theorem level_concat (up : β → Bool) (l : List β) (b : β) :
    level up (l ++ [b]) = level up l + if up b then 1 else -1 := by
  cases hb : up b
  · simp [level, List.countP_append, hb]
    omega
  · simp [level, List.countP_append, hb]
    omega

/-- What a sweep knows after a part of the list. -/
structure Swept (up : β → Bool) (want : ℤ) (done : List β) (most : ℤ) (found : Option β) : Prop where
  le : most ≤ want
  highest : ∀ q, q <+: done → level up q ≤ most
  first : most = 0 ∧ found = none ∨ ∃ p b, p ++ [b] <+: done ∧ up b = true ∧ found = some b ∧
    level up (p ++ [b]) = most ∧ ∀ q, q <+: p → level up q < most

namespace Swept

variable {done : List β} {most : ℤ} {found : Option β}

theorem keep (h : Swept up want done most found) {b : β} (hlevel : level up (done ++ [b]) ≤ most) :
    Swept up want (done ++ [b]) most found where
  le := h.le
  highest q hq := by
    rcases List.prefix_concat_iff.mp hq with rfl | hq
    · exact hlevel
    · exact h.highest q hq
  first := h.first.imp_right fun ⟨p, c, hp, hrest⟩ => ⟨p, c, hp.trans (List.prefix_append _ _), hrest⟩

theorem raise (h : Swept up want done most found) {b : β} (hb : up b = true)
    (hlevel : level up (done ++ [b]) = most + 1) (hwant : most < want) :
    Swept up want (done ++ [b]) (most + 1) (some b) where
  le := hwant
  highest q hq := by
    rcases List.prefix_concat_iff.mp hq with rfl | hq
    · exact hlevel.le
    · exact (h.highest q hq).trans (by omega)
  first := .inr ⟨done, b, List.prefix_refl _, hb, rfl, hlevel, fun q hq => Int.lt_add_one_of_le (h.highest q hq)⟩

end Swept

theorem sweep_spec {rest done : List β} {most : ℤ} {found : Option β} (h : Swept up want done most found) :
    ∃ done' rest', done ++ rest = done' ++ rest' ∧
      Swept up want done' (sweep up want rest (level up done) most found).1
        (sweep up want rest (level up done) most found).2 ∧
      ((sweep up want rest (level up done) most found).1 < want → rest' = []) := by
  induction rest generalizing done most found with
  | nil => exact ⟨done, [], rfl, h, fun _ => rfl⟩
  | cons b rest ih =>
    have hnext : done ++ b :: rest = done ++ [b] ++ rest := by simp
    rw [sweep, hnext]
    split
    · next hwant =>
      have hlevel := level_concat up done b
      cases hb : up b
      · simp only [hb, Bool.false_eq_true, if_false] at hlevel ⊢
        have hkeep : level up (done ++ [b]) ≤ most := by
          have := h.highest done (List.prefix_refl _)
          omega
        rw [show level up done - 1 = level up (done ++ [b]) by omega]
        exact ih (h.keep hkeep)
      · simp only [hb, if_true] at hlevel ⊢
        rw [← hlevel]
        split
        · next hmore =>
          have hmost : level up (done ++ [b]) = most + 1 := by
            have := h.highest done (List.prefix_refl _)
            omega
          rw [hmost, ← hmost]
          exact ih (hmost ▸ h.raise hb hmost hwant)
        · next hmore => exact ih (h.keep (not_lt.mp hmore))
    · next hwant => exact ⟨done, b :: rest, by simp, h, fun hless => absurd hless hwant⟩

theorem sweep_concat {rest : List β} {b : β} (hb : up b = false) (current most : ℤ) (found : Option β) :
    sweep up want (rest ++ [b]) current most found = sweep up want rest current most found := by
  induction rest generalizing current most found with
  | nil => simp [sweep, hb]
  | cons c rest ih =>
    rw [List.cons_append, sweep, sweep]
    simp only [ih]

/-! End points of intervals -/

variable [LinearOrder α]

def depth (intervals : List (α × α)) (t : α) : ℕ := intervals.countP fun i => i.1 ≤ t ∧ t ≤ i.2

/-- The list `l` has the end points of the intervals in their order, and at one point
the lower ones, those with `up`, first. -/
structure EndPoints (intervals : List (α × α)) (point : β → α) (up : β → Bool) (l : List β) : Prop where
  lower : ((l.filter up).map point).Perm (intervals.map Prod.fst)
  upper : ((l.filter fun b => !up b).map point).Perm (intervals.map Prod.snd)
  sorted : l.Pairwise fun a b => point a < point b ∨ point a = point b ∧ (up a = true ∨ up b = false)
  le : ∀ i ∈ intervals, i.1 ≤ i.2

namespace EndPoints

variable {intervals : List (α × α)} {point : β → α} {l : List β}

section

variable (h : EndPoints intervals point up l)

include h

theorem countP_lower (P : α → Bool) : l.countP (fun b => up b && P (point b)) = intervals.countP fun i => P i.1 := by
  have hperm := h.lower.countP_eq P
  rw [List.countP_map, List.countP_map, List.countP_filter] at hperm
  exact Eq.trans (List.countP_congr fun b _ => by simp [and_comm]) hperm

theorem countP_upper (P : α → Bool) : l.countP (fun b => !up b && P (point b)) = intervals.countP fun i => P i.2 := by
  have hperm := h.upper.countP_eq P
  rw [List.countP_map, List.countP_map, List.countP_filter] at hperm
  exact Eq.trans (List.countP_congr fun b _ => by simp [and_comm]) hperm

theorem depth_add (t : α) : depth intervals t + l.countP (fun b => !up b && decide (point b < t)) =
      l.countP fun b => up b && decide (point b ≤ t) := by
  rw [h.countP_lower fun x => decide (x ≤ t), h.countP_upper fun x => decide (x < t), depth]
  have hle := h.le
  clear h
  induction intervals with
  | nil => rfl
  | cons i intervals ih =>
    have hi := hle i List.mem_cons_self
    have hrest := ih fun j hj => hle j (List.mem_cons_of_mem _ hj)
    simp only [List.countP_cons, decide_eq_true_eq] at hrest ⊢
    rcases lt_or_ge i.2 t with hlt | hge
    · have h1 : i.1 ≤ t := hi.trans hlt.le
      have h2 : ¬t ≤ i.2 := not_le.mpr hlt
      simp only [h1, h2, hlt, and_false, if_false, if_true]
      omega
    · have h2 : ¬i.2 < t := not_lt.mpr hge
      by_cases h1 : i.1 ≤ t <;> simp only [h1, hge, h2, and_true, if_false, if_true] <;> omega

theorem split {p r : List β} {b : β} (hl : l = p ++ b :: r) (hb : up b = true) :
    (∀ a ∈ p, point a ≤ point b ∧ (up a = false → point a < point b)) ∧ ∀ a ∈ r, point b ≤ point a := by
  have hsorted := h.sorted
  rw [hl, List.pairwise_append, List.pairwise_cons] at hsorted
  obtain ⟨_, ⟨hafter, _⟩, hbefore⟩ := hsorted
  refine ⟨fun a ha => ?_, fun a ha => ?_⟩
  · rcases hbefore a ha b List.mem_cons_self with hlt | ⟨heq, hup⟩
    · exact ⟨hlt.le, fun _ => hlt⟩
    · refine ⟨heq.le, fun ha' => ?_⟩
      simp [ha', hb] at hup
  · exact (hafter a ha).elim le_of_lt fun heq => heq.1.le

theorem level_le_depth {p r : List β} {b : β} (hl : l = p ++ b :: r)
    (hb : up b = true) : level up (p ++ [b]) ≤ depth intervals (point b) := by
  obtain ⟨hbefore, hafter⟩ := h.split hl hb
  have hdepth := h.depth_add (point b)
  have hups : (p ++ [b]).countP up ≤ l.countP fun a => up a && decide (point a ≤ point b) := by
    have hsame : (p ++ [b]).countP up = (p ++ [b]).countP fun a => up a && decide (point a ≤ point b) :=
      List.countP_congr fun a ha => by
        rcases List.mem_append.mp ha with ha | ha
        · simp [(hbefore a ha).1]
        · obtain rfl := List.mem_singleton.mp ha
          simp
    rw [hsame, hl, show p ++ b :: r = p ++ [b] ++ r by simp]
    exact (List.sublist_append_left _ _).countP_le
  have hdowns : (l.countP fun a => !up a && decide (point a < point b)) = (p ++ [b]).countP fun a => !up a := by
    have hnone : (r.countP fun a => !up a && decide (point a < point b)) = 0 :=
      List.countP_eq_zero.mpr fun a ha => by simp [not_lt.mpr (hafter a ha)]
    rw [hl, show p ++ b :: r = p ++ [b] ++ r by simp, List.countP_append, hnone, Nat.add_zero]
    refine List.countP_congr fun a ha => ?_
    rcases List.mem_append.mp ha with ha | ha
    · cases hup : up a
      · simp [(hbefore a ha).2 hup]
      · simp
    · obtain rfl := List.mem_singleton.mp ha
      simp [hb]
  rw [level]
  omega

theorem exists_depth_le_level {t : α} (ht : 0 < depth intervals t) :
    ∃ p b r, l = p ++ b :: r ∧ up b = true ∧ point b ≤ t ∧ depth intervals t ≤ level up (p ++ [b]) := by
  have hdepth := h.depth_add t
  have hsome : ∃ b ∈ l, (up b && decide (point b ≤ t)) = true := List.countP_pos_iff.mp (by omega)
  obtain ⟨p, b, r, hl, hb, hlast⟩ : ∃ p b r, l = p ++ b :: r ∧ (up b && decide (point b ≤ t)) = true ∧
      ∀ a ∈ r, ¬(up a && decide (point a ≤ t)) = true := by
    clear h hdepth ht
    induction l with
    | nil => simp at hsome
    | cons c l ih =>
      by_cases hrest : ∃ b ∈ l, (up b && decide (point b ≤ t)) = true
      · obtain ⟨p, b, r, rfl, hb, hlast⟩ := ih hrest
        exact ⟨c :: p, b, r, rfl, hb, hlast⟩
      · obtain ⟨b, hmem, hb⟩ := hsome
        rcases List.mem_cons.mp hmem with rfl | hmem
        · exact ⟨[], b, l, rfl, hb, fun a ha hup => hrest ⟨a, ha, hup⟩⟩
        · exact absurd ⟨b, hmem, hb⟩ hrest
  simp only [Bool.and_eq_true, decide_eq_true_eq] at hb
  obtain ⟨hbefore, _⟩ := h.split hl hb.1
  refine ⟨p, b, r, hl, hb.1, hb.2, ?_⟩
  have hups : (l.countP fun a => up a && decide (point a ≤ t)) ≤ (p ++ [b]).countP up := by
    rw [hl, show p ++ b :: r = p ++ [b] ++ r by simp, List.countP_append, List.countP_eq_zero.mpr hlast, Nat.add_zero]
    exact List.countP_mono_left fun a _ ha => (Bool.and_eq_true_iff.mp ha).1
  have hdowns : ((p ++ [b]).countP fun a => !up a) ≤ l.countP fun a => !up a && decide (point a < t) := by
    rw [hl, show p ++ b :: r = p ++ [b] ++ r by simp]
    refine le_trans (List.countP_mono_left fun a ha hup => ?_) (List.sublist_append_left _ _).countP_le
    simp only [Bool.not_eq_true'] at hup
    rcases List.mem_append.mp ha with ha | ha
    · simp [hup, ((hbefore a ha).2 hup).trans_le hb.2]
    · obtain rfl := List.mem_singleton.mp ha
      simp [hb.1] at hup
  rw [level]
  omega

theorem last {p : List β} {b : β} (hl : l = p ++ [b]) : up b = false := by
  by_contra hb
  rw [Bool.not_eq_false] at hb
  obtain ⟨hbefore, _⟩ := h.split hl hb
  have hmem : point b ∈ intervals.map Prod.fst :=
    h.lower.mem_iff.mp (List.mem_map_of_mem (List.mem_filter.mpr ⟨by simp [hl], hb⟩))
  obtain ⟨i, hi, hfst⟩ := List.mem_map.mp hmem
  obtain ⟨c, hc, hsnd⟩ := List.mem_map.mp (h.upper.mem_iff.mpr (List.mem_map_of_mem hi))
  simp only [List.mem_filter, Bool.not_eq_true', hl, List.mem_append, List.mem_singleton] at hc
  obtain ⟨hc | rfl, hup⟩ := hc
  · have hlt := (hbefore c hc).2 hup
    rw [hsnd, ← hfst] at hlt
    exact absurd (h.le i hi) (not_le.mpr hlt)
  · simp [hb] at hup

theorem first {r : List β} {b : β} (hl : l = b :: r) : up b = true := by
  by_contra hb
  rw [Bool.not_eq_true] at hb
  have hsorted := h.sorted
  rw [hl, List.pairwise_cons] at hsorted
  have hmem : point b ∈ intervals.map Prod.snd :=
    h.upper.mem_iff.mp (List.mem_map_of_mem (List.mem_filter.mpr ⟨by simp [hl], by simp [hb]⟩))
  obtain ⟨i, hi, hsnd⟩ := List.mem_map.mp hmem
  obtain ⟨c, hc, hfst⟩ := List.mem_map.mp (h.lower.mem_iff.mpr (List.mem_map_of_mem hi))
  simp only [List.mem_filter, hl, List.mem_cons] at hc
  obtain ⟨rfl | hc, hup⟩ := hc
  · simp [hb] at hup
  · have hle := h.le i hi
    rw [← hsnd] at hsorted
    rcases hsorted.1 c hc with hlt | ⟨_, hup'⟩
    · rw [hfst] at hlt
      exact absurd hle (not_le.mpr hlt)
    · simp [hb, hup] at hup'

theorem sweep_least (hne : l ≠ []) (hwant : 1 ≤ want) :
    ∃ most b, sweep up want l.dropLast 0 0 none = (most, some b) ∧ 1 ≤ most ∧ most ≤ want ∧ b ∈ l ∧ up b = true ∧
      IsLeast {t | most ≤ depth intervals t} (point b) ∧ (most < want → ∀ t, depth intervals t ≤ most) := by
  obtain ⟨p, z, hz⟩ : ∃ p z, l = p ++ [z] := ⟨l.dropLast, l.getLast hne, (List.dropLast_append_getLast hne).symm⟩
  have hsweep : sweep up want l.dropLast 0 0 none = sweep up want l 0 0 none := by
    rw [hz, List.dropLast_concat]
    exact (sweep_concat (h.last hz) 0 0 none).symm
  have hstart : Swept up want ([] : List β) 0 none :=
    ⟨by omega, fun q hq => by simp [List.prefix_nil.mp hq, level], .inl ⟨rfl, rfl⟩⟩
  obtain ⟨done, rest, hl, hswept, hall⟩ := sweep_spec hstart
  rw [show level up ([] : List β) = 0 from rfl, ← hsweep] at hswept hall
  set res := sweep up want l.dropLast 0 0 none
  rw [List.nil_append] at hl
  have hpositive : 1 ≤ res.1 := by
    by_contra hless
    obtain rfl : rest = [] := hall (by omega)
    obtain ⟨b, r, hb⟩ := List.exists_cons_of_ne_nil hne
    have hprefix : [b] <+: done := by
      rw [← List.append_nil done, ← hl, hb]
      exact List.prefix_append [b] r
    have hone := hswept.highest [b] hprefix
    rw [show [b] = [] ++ [b] from rfl, level_concat, h.first hb] at hone
    simp only [level, List.countP_nil, if_true] at hone
    omega
  rcases hswept.first with ⟨hzero, _⟩ | ⟨p, b, hp, hb, hfound, hlevel, hfirst⟩
  · omega
  · obtain ⟨r, hr⟩ := hp
    have hsplit : l = p ++ b :: (r ++ rest) := by
      rw [hl, ← hr]
      simp
    have hreach : ∀ t, res.1 ≤ depth intervals t → point b ≤ t := fun t ht => by
      obtain ⟨q, c, s, hc, hupc, hct, hdepth⟩ := h.exists_depth_le_level (t := t) (by omega)
      by_contra hlt
      rw [not_le] at hlt
      -- the end point `c` comes before `b`, where the level was still lower
      have hprefix : q ++ [c] <+: p := by
        have hboth : q ++ [c] <+: p ∨ p ++ [b] <+: q ++ [c] := by
          have h₁ : q ++ [c] <+: l := ⟨s, by simp [hc]⟩
          have h₂ : p ++ [b] <+: l := ⟨r ++ rest, by simp [hsplit]⟩
          rcases List.prefix_or_prefix_of_prefix h₁ h₂ with h | h
          · rcases List.prefix_concat_iff.mp h with heq | h
            · exact .inr (heq ▸ List.prefix_refl _)
            · exact .inl h
          · exact .inr h
        refine hboth.resolve_right fun hafter => ?_
        have hmem : b ∈ q ++ [c] := hafter.subset (by simp)
        have hbc : point b ≤ point c := by
          rcases List.mem_append.mp hmem with hmem | hmem
          · exact ((h.split hc hupc).1 b hmem).1
          · rw [List.mem_singleton.mp hmem]
        exact absurd (hbc.trans hct) (not_le.mpr hlt)
      have := hfirst _ hprefix
      omega
    refine ⟨res.1, b, Prod.ext rfl hfound, hpositive, hswept.le, by simp [hsplit], hb, ⟨?_, hreach⟩, fun hless t => ?_⟩
    · rw [Set.mem_ofPred_eq, ← hlevel]
      exact h.level_le_depth hsplit hb
    · obtain rfl := hall hless
      rw [List.append_nil] at hl
      by_contra hmore
      obtain ⟨q, c, s, hc, _, _, hdepth⟩ := h.exists_depth_le_level (t := t) (by omega)
      have := hswept.highest (q ++ [c]) ⟨s, by rw [← hl, hc]; simp⟩
      omega

theorem reverse :
    EndPoints (intervals.map fun i => (OrderDual.toDual i.2, OrderDual.toDual i.1)) (fun b => OrderDual.toDual (point b))
      (fun b => !up b) l.reverse where
  lower := by
    have hperm := (h.upper.map OrderDual.toDual)
    simp only [List.map_map] at hperm
    rw [List.filter_reverse, List.map_reverse, List.map_map]
    exact (List.reverse_perm _).trans hperm
  upper := by
    have hperm := (h.lower.map OrderDual.toDual)
    simp only [List.map_map] at hperm
    simp only [Bool.not_not]
    rw [List.filter_reverse, List.map_reverse, List.map_map]
    exact (List.reverse_perm _).trans hperm
  sorted := by
    rw [List.pairwise_reverse]
    refine h.sorted.imp fun {a b} hab => ?_
    rcases hab with hlt | ⟨heq, hup⟩
    · exact .inl hlt
    · refine .inr ⟨congrArg OrderDual.toDual heq.symm, ?_⟩
      simpa using hup.symm
  le i hi := by
    obtain ⟨j, hj, rfl⟩ := List.mem_map.mp hi
    exact h.le j hj

end

theorem depth_reverse (intervals : List (α × α)) (t : α) :
    depth (intervals.map fun i => (OrderDual.toDual i.2, OrderDual.toDual i.1)) (OrderDual.toDual t) =
      depth intervals t := by
  rw [depth, List.countP_map]
  exact List.countP_congr fun i _ => by simp [and_comm]

end EndPoints

end lib
