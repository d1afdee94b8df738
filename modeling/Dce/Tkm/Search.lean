import Dce.Tkm.Chains

open lib

namespace dce.tkm

variable {φ ν τ : Type}

namespace Token.Compatible

variable {a b : Token φ ν}

end Token.Compatible

theorem tkm_RevokeReqd_some {issued requested : Token φ ν} {revoke slice : Types}
    (h : tkm_RevokeReqd issued requested = some (revoke, slice)) :
    issued.host ≠ requested.host ∧ slice ⊆ revoke ∧ revoke ⊆ issued.types := by
  rw [tkm_RevokeReqd] at h
  by_cases hhost : issued.host = requested.host
  · simp [hhost] at h
  · rw [if_neg hhost] at h
    extract_lets overlap requestedTypes totalConflicts at h
    split at h
    · simp at h
    · obtain ⟨rfl, rfl⟩ := Prod.mk.inj (Option.some.inj h)
      refine ⟨hhost, ?_, Finset.inter_subset_left⟩
      split
      · exact Finset.empty_subset _
      · exact Finset.filter_subset ..

/-- An element that the search puts in the queue. -/
structure ConflictElem.Found (elem : ConflictElem) (h : Heap φ ν) (requested : Token φ ν) (p : Ptr) : Prop where
  token : elem.token = some p
  grantLow : elem.grantLow = none
  grantHigh : elem.grantHigh = none
  host : (h.token p).host ≠ requested.host
  grant : elem.grant ⊆ (h.token p).types

variable {h : Heap φ ν} {pool pool' : List Ptr}

theorem searchLoop_found {requested : Token φ ν} {room : ℕ} {list : List Ptr} :
    ∀ elem ∈ (searchLoop h requested room list).1, ∃ p ∈ list, elem.Found h requested p := by
  induction list generalizing room with
  | nil => cases room <;> simp [searchLoop]
  | cons p rest ih =>
    cases room with
    | zero => simp [searchLoop]
    | succ room =>
      intro elem helem
      rw [searchLoop] at helem
      split at helem
      · next revoke slice hreqd =>
        obtain ⟨hhost, hslice, hrevoke⟩ := tkm_RevokeReqd_some hreqd
        rcases List.mem_cons.mp helem with rfl | helem
        · exact ⟨p, List.mem_cons_self, rfl, rfl, rfl, hhost, hslice.trans hrevoke⟩
        · obtain ⟨p', hp', hfound⟩ := ih elem helem
          exact ⟨p', List.mem_cons_of_mem _ hp', hfound⟩
      · obtain ⟨p', hp', hfound⟩ := ih elem helem
        exact ⟨p', List.mem_cons_of_mem _ hp', hfound⟩

theorem tkm_ConflictingTokens_found {issued : TokenList} {requested : Token φ ν} :
    ∀ elem ∈ (tkm_ConflictingTokens h issued requested).1, ∃ p ∈ issued.list, elem.Found h requested p := by
  rw [tkm_ConflictingTokens]
  split
  · simp
  · exact searchLoop_found

/-! What is made of the pool -/

/-- The contents of a slice that is made of the token `issued` in the structure `p`. -/
structure Slice.Made (s : Slice φ ν) (h : Heap φ ν) (issued : Token φ ν) (grant : Types) : Prop where
  id : s.2.id = (h.token s.1).id
  refcount : s.2.refcount = (h.token s.1).refcount
  types : s.2.types = grant
  holder : s.2.holder = issued.holder
  host : s.2.host = issued.host
  range : s.2.range.Inside issued.range

theorem makeSlice_spec {issued : Token φ ν} {grant : Types} {range : Option ByteRange}
    {slice : Option (Slice φ ν)} (hrange : ∀ r, range = some r → r.Inside issued.range)
    (hmake : makeSlice h issued grant range pool = some (slice, pool')) :
    pool = slice.toList.map Prod.fst ++ pool' ∧ ∀ s ∈ slice, Slice.Made s h issued grant := by
  cases range with
  | none =>
    obtain ⟨rfl, rfl⟩ := Prod.mk.inj (Option.some.inj hmake)
    simp
  | some range =>
    cases pool with
    | nil => simp [makeSlice] at hmake
    | cons p pool =>
      obtain ⟨rfl, rfl⟩ := Prod.mk.inj (Option.some.inj hmake)
      refine ⟨rfl, fun s hs => ?_⟩
      obtain rfl := Option.some.inj hs
      exact ⟨rfl, rfl, rfl, rfl, rfl, hrange range rfl⟩

theorem tkm_MakeSliceNdice_spec {newToken issued : Token φ ν} {grant : Types}
    {low high : Option (Slice φ ν)} (hmake : tkm_MakeSliceNdice h newToken issued grant pool = some (low, high, pool')) :
    pool = low.toList.map Prod.fst ++ (high.toList.map Prod.fst ++ pool') ∧
      ∀ s ∈ high.toList ++ low.toList, Slice.Made s h issued grant := by
  obtain ⟨⟨low', pool₁⟩, hlow, hmake⟩ := Option.bind_eq_some_iff.mp hmake
  obtain ⟨⟨high', pool₂⟩, hhigh, heq⟩ := Option.map_eq_some_iff.mp hmake
  obtain ⟨rfl, hrest'⟩ := Prod.mk.inj heq
  obtain ⟨rfl, rfl⟩ := Prod.mk.inj hrest'
  have hinside := @ByteRange.complement_inside issued.range newToken.range
  obtain ⟨rfl, hmadeLow⟩ := makeSlice_spec hinside.1 hlow
  obtain ⟨rfl, hmadeHigh⟩ := makeSlice_spec hinside.2 hhigh
  refine ⟨rfl, fun s hs => ?_⟩
  rcases List.mem_append.mp hs with hs | hs
  · exact hmadeHigh s (Option.mem_toList.mp hs)
  · exact hmadeLow s (Option.mem_toList.mp hs)

theorem makeSlices_spec {newToken : Token φ ν} {q q' : ConflictQ}
    {slices slices' : List (Slice φ ν)} (hmake : makeSlices h newToken q pool slices = some (q', slices', pool')) :
    (slices'.map Prod.fst ++ pool').Perm (slices.map Prod.fst ++ pool) ∧ (∀ p ∈ pool', p ∈ pool) ∧
      ∀ s ∈ slices', s ∈ slices ∨ s.1 ∈ pool ∧
        ∃ elem ∈ q, ∃ p, elem.token = some p ∧ elem.grant ≠ ∅ ∧ Slice.Made s h (h.token p) elem.grant := by
  induction q generalizing pool slices q' with
  | nil =>
    obtain ⟨rfl, hrest'⟩ := Prod.mk.inj (Option.some.inj hmake)
    obtain ⟨rfl, rfl⟩ := Prod.mk.inj hrest'
    exact ⟨.refl _, fun _ => id, fun s hs => .inl hs⟩
  | cons elem q ih =>
    rw [makeSlices] at hmake
    split at hmake
    · obtain ⟨⟨q₁, slices₁, pool₁⟩, hrest, heq⟩ := Option.map_eq_some_iff.mp hmake
      obtain ⟨rfl, hrest'⟩ := Prod.mk.inj heq
      obtain ⟨rfl, rfl⟩ := Prod.mk.inj hrest'
      obtain ⟨hperm, hsub, hmade⟩ := ih hrest
      refine ⟨hperm, hsub, fun s hs => (hmade s hs).imp_right ?_⟩
      rintro ⟨hpool, elem', helem, hmade⟩
      exact ⟨hpool, elem', List.mem_cons_of_mem _ helem, hmade⟩
    · next hgrant =>
      split at hmake
      · simp at hmake
      · next p hp =>
        obtain ⟨⟨low, high, pool₁⟩, hnow, hmake⟩ := Option.bind_eq_some_iff.mp hmake
        obtain ⟨⟨q₂, slices₂, pool₂⟩, hrest, heq⟩ := Option.map_eq_some_iff.mp hmake
        obtain ⟨rfl, hrest'⟩ := Prod.mk.inj heq
        obtain ⟨rfl, rfl⟩ := Prod.mk.inj hrest'
        obtain ⟨rfl, hmadeNow⟩ := tkm_MakeSliceNdice_spec hnow
        obtain ⟨hperm, hsub, hmade⟩ := ih hrest
        have hin : ∀ p ∈ pool₁, p ∈ low.toList.map Prod.fst ++ (high.toList.map Prod.fst ++ pool₁) := fun p hp => by
          simp [hp]
        refine ⟨hperm.trans ?_, fun p hp => hin p (hsub p hp), fun s hs => ?_⟩
        · simp only [List.map_append, List.append_assoc]
          rw [List.perm_iff_count]
          intro a
          simp only [List.count_append]
          omega
        · rcases hmade s hs with hs | ⟨hpool, elem', helem, hmade⟩
          · rcases List.mem_append.mp hs with hs | hs
            · refine .inr ⟨?_, elem, List.mem_cons_self, p, hp, hgrant, hmadeNow s hs⟩
              rcases List.mem_append.mp hs with hs | hs
              · simp [List.mem_map_of_mem hs]
              · simp [List.mem_map_of_mem hs]
            · exact .inl hs
          · exact .inr ⟨hin _ hpool, elem', List.mem_cons_of_mem _ helem, hmade⟩

end dce.tkm
