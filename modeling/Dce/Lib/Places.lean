import Mathlib.Data.List.Nodup
import Mathlib.Data.List.Perm.Basic

namespace lib

/-- The cells of a chain from `a` on: each names the next one, and the last one names `null`. -/
def Chained {α : Type*} (next : α → α) (null : α) : α → List α → Prop
  | a, [] => a = null
  | a, b :: cells => a = b ∧ a ≠ null ∧ Chained next null (next b) cells

namespace Chained

variable {α : Type*} {next next' : α → α} {null a b c : α} {cells more : List α}

@[simp]
theorem nil_iff : Chained next null a [] ↔ a = null := Iff.rfl

theorem congr (h : Chained next null a cells) (hsame : ∀ b ∈ cells, next' b = next b) : Chained next' null a cells := by
  induction cells generalizing a with
  | nil => exact h
  | cons b cells ih =>
    obtain ⟨hab, hne, hrest⟩ := h
    refine ⟨hab, hne, ?_⟩
    rw [hsame b List.mem_cons_self]
    exact ih hrest fun c hc => hsame c (List.mem_cons_of_mem b hc)

theorem unique (h : Chained next null a cells) (hmore : Chained next null a more) : cells = more := by
  induction cells generalizing a more with
  | nil =>
    cases more with
    | nil => rfl
    | cons c more => exact absurd h hmore.2.1
  | cons b cells ih =>
    cases more with
    | nil => exact absurd hmore h.2.1
    | cons c more =>
      obtain ⟨rfl, -, hrest⟩ := h
      obtain ⟨rfl, -, hmore⟩ := hmore
      rw [ih hrest hmore]

theorem last (h : Chained next null a (cells ++ [b])) : next b = null := by
  induction cells generalizing a with
  | nil => exact h.2.2
  | cons c cells ih => exact ih h.2.2

theorem append (h : Chained next null a (cells ++ [b])) (hnext : ∀ c ∈ cells, next' c = next c)
    (hmore : Chained next' null (next' b) more) : Chained next' null a (cells ++ b :: more) := by
  induction cells generalizing a with
  | nil => exact ⟨h.1, h.2.1, hmore⟩
  | cons c cells ih =>
    obtain ⟨hac, hne, hrest⟩ := h
    refine ⟨hac, hne, ?_⟩
    rw [hnext c List.mem_cons_self]
    exact ih hrest fun d hd => hnext d (List.mem_cons_of_mem c hd)

theorem next_getD (h : Chained next null a cells) (k : ℕ) (hk : k < cells.length) :
    next (cells.getD k null) = cells.getD (k + 1) null := by
  induction cells generalizing a k with
  | nil => simp at hk
  | cons b cells ih =>
    obtain ⟨-, -, hrest⟩ := h
    cases k with
    | succ k => exact ih hrest k (by simpa using hk)
    | zero =>
      cases cells with
      | nil => exact hrest
      | cons c cells => exact hrest.1

end Chained

/-- The things in some places: none of them is in two places, or twice in one. -/
structure Apart {π α : Type*} (contents : π → List α) : Prop where
  nodup : ∀ x, (contents x).Nodup
  unique : ∀ {a x y}, a ∈ contents x → a ∈ contents y → x = y

namespace Apart

variable {π α : Type*} {contents contents' : π → List α}

theorem congr (h : Apart contents) (hperm : ∀ x, (contents x).Perm (contents' x)) : Apart contents' where
  nodup x := (hperm x).nodup_iff.mp (h.nodup x)
  unique hx hy := h.unique ((hperm _).mem_iff.mpr hx) ((hperm _).mem_iff.mpr hy)

theorem rename {ρ : Type*} (h : Apart contents) {name : ρ → π} (hinj : Function.Injective name) :
    Apart fun y => contents (name y) where
  nodup y := h.nodup (name y)
  unique hx hy := hinj (h.unique hx hy)

theorem mem_move (h : Apart contents) {a : α} {x y : π} (hne : x ≠ y)
    (hfrom : (contents x).Perm (a :: contents' x)) (hto : (contents' y).Perm (a :: contents y))
    (hother : ∀ z, z ≠ x → z ≠ y → (contents' z).Perm (contents z)) (b : α) (z : π) :
    b ∈ contents' z ↔ (b = a ∧ z = y) ∨ (b ≠ a ∧ b ∈ contents z) := by
  have hax : a ∈ contents x := hfrom.mem_iff.mpr List.mem_cons_self
  have hfresh : a ∉ contents' x := (List.nodup_cons.mp (hfrom.nodup_iff.mp (h.nodup x))).1
  have hgone : ∀ z, z ≠ x → a ∉ contents z := fun z hz haz => hz (h.unique haz hax)
  by_cases hzy : z = y
  · subst hzy
    rw [hto.mem_iff, List.mem_cons]
    by_cases hba : b = a
    · simp [hba]
    · simp [hba]
  · by_cases hzx : z = x
    · subst hzx
      rw [hfrom.mem_iff (a := b), List.mem_cons]
      by_cases hba : b = a
      · subst hba
        simp [hfresh, hzy]
      · simp [hba]
    · rw [(hother z hzx hzy).mem_iff]
      by_cases hba : b = a
      · subst hba
        simp [hgone z hzx, hzy]
      · simp [hba]

theorem move (h : Apart contents) {a : α} {x y : π} (hne : x ≠ y)
    (hfrom : (contents x).Perm (a :: contents' x)) (hto : (contents' y).Perm (a :: contents y))
    (hother : ∀ z, z ≠ x → z ≠ y → (contents' z).Perm (contents z)) : Apart contents' where
  nodup z := by
    by_cases hzy : z = y
    · subst hzy
      have hgone : a ∉ contents z := fun haz =>
        hne (h.unique (hfrom.mem_iff.mpr List.mem_cons_self) haz)
      exact hto.nodup_iff.mpr (List.nodup_cons.mpr ⟨hgone, h.nodup z⟩)
    · by_cases hzx : z = x
      · subst hzx
        exact (List.nodup_cons.mp (hfrom.nodup_iff.mp (h.nodup z))).2
      · exact (hother z hzx hzy).nodup_iff.mpr (h.nodup z)
  unique {b z w} hz hw := by
    rcases (h.mem_move hne hfrom hto hother b z).mp hz with ⟨hb, rfl⟩ | ⟨hb, hz⟩ <;>
      rcases (h.mem_move hne hfrom hto hother b w).mp hw with ⟨hb', rfl⟩ | ⟨hb', hw⟩
    · rfl
    · exact absurd hb hb'
    · exact absurd hb' hb
    · exact h.unique hz hw

theorem mem_iff_of_ne {l l' : List α} {a b : α} (hne : b ≠ a)
    (h : l'.Perm l ∨ l.Perm (a :: l') ∨ l'.Perm (a :: l)) : b ∈ l' ↔ b ∈ l := by
  rcases h with h | h | h
  · exact h.mem_iff
  · simp [h.mem_iff, hne]
  · simp [h.mem_iff, hne]

theorem add (h : Apart contents) {a : α} {y : π} (hnew : ∀ z, a ∉ contents z)
    (hto : (contents' y).Perm (a :: contents y)) (hother : ∀ z, z ≠ y → (contents' z).Perm (contents z)) :
    Apart contents' where
  nodup z := by
    by_cases hzy : z = y
    · subst hzy
      exact hto.nodup_iff.mpr (List.nodup_cons.mpr ⟨hnew z, h.nodup z⟩)
    · exact (hother z hzy).nodup_iff.mpr (h.nodup z)
  unique {b z w} hz hw := by
    have hmem : ∀ {z}, b ∈ contents' z → (b = a ∧ z = y) ∨ b ∈ contents z := fun {z} hz => by
      by_cases hzy : z = y
      · subst hzy
        rcases List.mem_cons.mp (hto.mem_iff.mp hz) with rfl | hz
        · exact .inl ⟨rfl, rfl⟩
        · exact .inr hz
      · exact .inr ((hother z hzy).mem_iff.mp hz)
    rcases hmem hz with ⟨rfl, rfl⟩ | hz <;> rcases hmem hw with ⟨hb, rfl⟩ | hw
    · rfl
    · exact absurd hw (hnew w)
    · exact absurd hz (hb ▸ hnew z)
    · exact h.unique hz hw

theorem drop (h : Apart contents) {a : α} {x : π} (hfrom : (contents x).Perm (a :: contents' x))
    (hother : ∀ z, z ≠ x → (contents' z).Perm (contents z)) : Apart contents' where
  nodup z := by
    by_cases hzx : z = x
    · subst hzx
      exact (List.nodup_cons.mp (hfrom.nodup_iff.mp (h.nodup z))).2
    · exact (hother z hzx).nodup_iff.mpr (h.nodup z)
  unique {b z w} hz hw := by
    have hmem : ∀ {z}, b ∈ contents' z → b ∈ contents z := fun {z} hz => by
      by_cases hzx : z = x
      · subst hzx
        exact hfrom.mem_iff.mpr (List.mem_cons_of_mem _ hz)
      · exact (hother z hzx).mem_iff.mp hz
    exact h.unique (hmem hz) (hmem hw)

end Apart

end lib
