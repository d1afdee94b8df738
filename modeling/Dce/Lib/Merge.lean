import Mathlib.Data.List.Basic

namespace lib

variable {α : Type*} (beats : α → α → Prop)

/-- The thing is in the history and nothing there beats it. -/
structure Unbeaten (history : List α) (a : α) : Prop where
  mem : a ∈ history
  unbeaten : ∀ b ∈ history, ¬ beats b a

/-- What is kept of a history beats all of it that is not kept. -/
structure Covers (kept history : List α) : Prop where
  subset : ∀ a ∈ kept, a ∈ history
  beaten : ∀ a ∈ history, a ∈ kept ∨ ∃ b ∈ kept, beats b a

variable {beats} {kept history : List α}

namespace Covers

theorem refl (history : List α) : Covers beats history history := ⟨fun _ h => h, fun _ h => .inl h⟩

theorem trans (htrans : ∀ {a b c}, beats a b → beats b c → beats a c) {kept' : List α} (h' : Covers beats kept' kept)
    (h : Covers beats kept history) : Covers beats kept' history where
  subset a ha := h.subset a (h'.subset a ha)
  beaten a ha := by
    obtain hkept | ⟨b, hb, hba⟩ := h.beaten a ha
    · exact h'.beaten a hkept
    · obtain hkept | ⟨c, hc, hcb⟩ := h'.beaten b hb
      · exact .inr ⟨b, hkept, hba⟩
      · exact .inr ⟨c, hc, htrans hcb hba⟩

theorem append (h : Covers beats kept history) (more : List α) : Covers beats (kept ++ more) (history ++ more) where
  subset b hb := by
    obtain hb | hb := List.mem_append.mp hb
    · exact List.mem_append_left _ (h.subset b hb)
    · exact List.mem_append_right _ hb
  beaten b hb := by
    obtain hb | hb := List.mem_append.mp hb
    · obtain hkept | ⟨c, hc, hcb⟩ := h.beaten b hb
      · exact .inl (List.mem_append_left _ hkept)
      · exact .inr ⟨c, List.mem_append_left _ hc, hcb⟩
    · exact .inl (List.mem_append_right _ hb)

theorem unbeaten_iff (htrans : ∀ {a b c}, beats a b → beats b c → beats a c) (h : Covers beats kept history) {a : α} :
    Unbeaten beats kept a ↔ Unbeaten beats history a := by
  constructor
  · intro ha
    refine ⟨h.subset a ha.mem, fun b hb hba => ?_⟩
    obtain hkept | ⟨c, hc, hcb⟩ := h.beaten b hb
    · exact ha.unbeaten b hkept hba
    · exact ha.unbeaten c hc (htrans hcb hba)
  · intro ha
    refine ⟨?_, fun b hb => ha.unbeaten b (h.subset b hb)⟩
    obtain hkept | ⟨b, hb, hba⟩ := h.beaten a ha.mem
    · exact hkept
    · exact absurd hba (ha.unbeaten b (h.subset b hb))

end Covers

end lib
