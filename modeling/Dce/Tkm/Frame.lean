import Dce.Tkm.Chains

open lib Relation

namespace dce.tkm

variable {φ ν τ : Type} {L : Layout φ ν}

/-- Only a granted token has the id `n`. -/
structure Heap.Named (h : Heap φ ν) (n : ℕ) : Prop where
  ne : n ≠ 0
  le : n ≤ h.lastTokenId
  granted : ∀ p, (h.token p).id = n → ∃ holder, p ∈ h.granted holder

/-- As long as the token with the id `n` waits for an answer it has the types offered. -/
structure Heap.Offered (h : Heap φ ν) (n : ℕ) (offered : Types) : Prop where
  le : n ≤ h.lastTokenId
  types : n ≠ 0 → ∀ p, (h.token p).id = n → ((h.token p).granting = true ∨ ∀ holder, p ∉ h.granted holder) →
    offered ⊆ (h.token p).types

namespace Heap.Changes

variable {h h' : Heap φ ν} {p : Ptr} {n : ℕ}

theorem named (hchanges : h.Changes h' p) (hn : h.Named n) : h'.Named n where
  ne := hn.ne
  le := Nat.le_trans hn.le hchanges.lastTokenId
  granted q hq := by
    by_cases hqp : q = p
    · subst hqp
      have hle := hn.le
      rcases hchanges.self with hid | hid | ⟨hid, hgranted, _⟩
      · exact absurd (hq.symm.trans hid) hn.ne
      · omega
      · obtain ⟨holder, hmem⟩ := hn.granted q (hid ▸ hq)
        exact ⟨holder, hgranted holder hmem⟩
    · rw [hchanges.token q hqp] at hq
      obtain ⟨holder, hmem⟩ := hn.granted q hq
      exact ⟨holder, (hchanges.granted q hqp holder).mpr hmem⟩

theorem offered (hchanges : h.Changes h' p) {types : Types} (hn : h.Offered n types) : h'.Offered n types where
  le := Nat.le_trans hn.le hchanges.lastTokenId
  types hne q hq hwaits := by
    by_cases hqp : q = p
    · subst hqp
      have hle := hn.le
      rcases hchanges.self with hid | hid | ⟨hid, _, hkeeps⟩
      · exact absurd (hq.symm.trans hid) hne
      · omega
      · obtain ⟨hwaited, hsub⟩ := hkeeps hwaits
        exact (hn.types hne q (hid ▸ hq) hwaited).trans hsub
    · rw [hchanges.token q hqp] at hq hwaits ⊢
      exact hn.types hne q hq (hwaits.imp_right fun hnot holder hmem =>
        hnot holder ((hchanges.granted q hqp holder).mpr hmem))

end Heap.Changes

namespace Sound

variable {h : Heap φ ν} {locals : τ → List Ptr}

theorem heap_named (hs : Sound h locals) {p : Ptr} {holder : Holder φ ν} (hp : p ∈ h.granted holder) :
    h.Named (h.token p).id where
  ne := hs.named (.granted holder) (by simp) p hp
  le := hs.newest p
  granted q hq := by
    obtain rfl := hs.distinct q p hq (hq ▸ hs.named (.granted holder) (by simp) p hp)
    exact ⟨holder, hp⟩

theorem heap_offered (hs : Sound h locals) (p : Ptr) : h.Offered (h.token p).id (h.token p).types where
  le := hs.newest p
  types hne q hq _ := by
    obtain rfl := hs.distinct q p hq (hq ▸ hne)
    exact Finset.Subset.refl _

end Sound

/-- What stays the same of a token that waits or is with another thread. -/
structure Token.Kept (t t' : Token φ ν) : Prop extends t.Touched t' where
  types : t'.types = t.types

namespace Token.Kept

variable {t t₁ t₂ : Token φ ν}

theorem refl : t.Kept t := ⟨⟨rfl, rfl, rfl, rfl⟩, rfl⟩

theorem trans (h₁ : t.Kept t₁) (h₂ : t₁.Kept t₂) : t.Kept t₂ :=
  ⟨⟨h₂.id.trans h₁.id, h₂.range.trans h₁.range, h₂.holder.trans h₁.holder, h₂.host.trans h₁.host⟩,
    h₂.types.trans h₁.types⟩

end Token.Kept

variable [DecidableEq φ] [DecidableEq ν] [DecidableEq τ] {t : τ} {others : τ → List Ptr}

theorem Prim.kept {k : Kind} {a b : Heap φ ν × List Ptr} (hprim : Prim L k a b)
    (hs : Sound a.1 (Function.update others t a.2)) {p : Ptr} {x : Place φ ν τ}
    (hp : p ∈ contents a.1 (Function.update others t a.2) x) (hfree : x ≠ .free)
    (hgranted : ∀ holder, x ≠ .granted holder) (hlocal : x ≠ .thread t) :
    (a.1.token p).Kept (b.1.token p) := by
  have helse : ∀ {q y}, q ∈ contents a.1 (Function.update others t a.2) y → y ≠ x → p ≠ q :=
    fun hq hne heq => hne (hs.apart.unique (heq ▸ hq) hp)
  have hmine : ∀ {q}, q ∈ a.2 → p ≠ q := fun hq => helse (Sound.mem_local hq) (Ne.symm hlocal)
  have hnot : ∀ {q holder}, q ∈ a.1.granted holder → p ≠ q := fun {q holder} hq =>
    helse (y := .granted holder) hq (Ne.symm (hgranted holder))
  have hsame : ∀ {h : Heap φ ν} {q : Ptr} {tok : Token φ ν}, p ≠ q → (h.token p).Kept ((h.setToken q tok).token p) :=
    fun hne => by rw [Heap.setToken_token_of_ne _ _ hne]; exact .refl
  cases hprim with
  | alloc h l => exact hsame fun heq => Nat.lt_irrefl _ (heq ▸ hs.below x p hp)
  | take l htake =>
    rename_i h h' q
    obtain ⟨rest, hq, rfl⟩ := tkm_GetFreeToken_spec htake
    exact hsame (helse (by simp [contents, hq]) (Ne.symm hfree))
  | put h q l => exact hsame (hmine List.mem_cons_self)
  | fill h q l => exact hsame (hmine List.mem_cons_self)
  | slice l _ _ _ _ _ _ hgrant =>
    obtain ⟨holder, _, hgrants⟩ := tkm_GrantHolderToken_spec hgrant
    rw [hgrants.token]
    exact hsame (hmine List.mem_cons_self)
  | grant l _ _ _ hgrant =>
    obtain ⟨holder, _, hgrants⟩ := tkm_GrantHolderToken_spec hgrant
    rw [hgrants.token]
    exact hsame (hmine List.mem_cons_self)
  | drop l hq hdrop =>
    obtain ⟨_, htoken⟩ := dropTypes_spec hdrop
    rw [htoken]
    exact hsame (hnot hq)
  | recycle l _ _ hreturn =>
    obtain ⟨holder, _, hreturns⟩ := tkm_ReturnHolderToken_spec hreturn
    refine (show (_ : Token φ ν).Kept _ from ?_).trans (hsame (hnot hreturns.mem))
    rw [hreturns.token]
    exact .refl
  | touch h l q htouched htypes _ _ =>
    rename_i tok
    by_cases hpq : p = q
    · subst hpq
      rw [Heap.setToken_token]
      exact ⟨htouched, htypes (hs.named x hfree p hp)⟩
    · exact hsame hpq
  | adjust h l hq _ => exact hsame (hnot hq)
  | host h l f host => exact .refl
  | shelve h s q l => simpa using .refl
  | unqueue h holder l _ => simpa using .refl
  | unbeing h v l _ => simpa using .refl
  | perm h _ => exact .refl
  | forget h q l => exact .refl

omit [DecidableEq τ] in
theorem Prim.tokenGrants {k : Kind} {a b : Heap φ ν × List Ptr} (hprim : Prim L k a b) (hslice : k ≠ .slice)
    (hgrant : k ≠ .grant) (holder : Holder φ ν) : b.1.tokenGrants holder = a.1.tokenGrants holder := by
  cases hprim with
  | alloc h l => cases holder <;> rfl
  | take l htake =>
    obtain ⟨-, -, rfl⟩ := tkm_GetFreeToken_spec htake
    cases holder <;> rfl
  | put h q l => cases holder <;> rfl
  | slice => exact absurd rfl hslice
  | grant => exact absurd rfl hgrant
  | drop l _ hdrop => exact (dropTypes_spec hdrop).1.tokenGrants holder
  | recycle l _ _ hreturn =>
    obtain ⟨_, _, hreturns⟩ := tkm_ReturnHolderToken_spec hreturn
    exact (show (tkm_PutTokenInFreeList _ _).tokenGrants holder = _ by cases holder <;> rfl).trans
      (hreturns.tokenGrants holder)
  | host => exact absurd rfl hgrant
  | _ => simp

namespace Chain

variable {ok : Kind → Prop} {a b : Heap φ ν × List Ptr}

theorem heap_named (hchain : Chain L ok a b) (hs : Sound a.1 (Function.update others t a.2)) {n : ℕ}
    (hn : a.1.Named n) : b.1.Named n := by
  induction hchain with
  | refl => exact hn
  | tail hchain hprim ih =>
    obtain ⟨k, _, hprim⟩ := hprim
    obtain ⟨p, hchanges⟩ := hprim.changes (Chain.sound hchain hs)
    exact hchanges.named ih

theorem heap_offered (hchain : Chain L ok a b) (hs : Sound a.1 (Function.update others t a.2)) {n : ℕ} {types : Types}
    (hn : a.1.Offered n types) : b.1.Offered n types := by
  induction hchain with
  | refl => exact hn
  | tail hchain hprim ih =>
    obtain ⟨k, _, hprim⟩ := hprim
    obtain ⟨p, hchanges⟩ := hprim.changes (Chain.sound hchain hs)
    exact hchanges.offered ih

omit [DecidableEq τ] in
theorem tokenGrants (hchain : Chain L ok a b) (hslice : ¬ok .slice) (hgrant : ¬ok .grant) (holder : Holder φ ν) :
    b.1.tokenGrants holder = a.1.tokenGrants holder := by
  induction hchain with
  | refl => rfl
  | tail _ hprim ih =>
    obtain ⟨k, hk, hprim⟩ := hprim
    exact (hprim.tokenGrants (fun h => hslice (h ▸ hk)) (fun h => hgrant (h ▸ hk)) holder).trans ih

theorem kept_local (hchain : Chain L ok a b) (hs : Sound a.1 (Function.update others t a.2)) {t' : τ} (ht : t' ≠ t)
    {p : Ptr} (hp : p ∈ others t') : (a.1.token p).Kept (b.1.token p) := by
  induction hchain with
  | refl => exact .refl
  | tail hchain hprim ih =>
    obtain ⟨k, _, hprim⟩ := hprim
    refine ih.trans (hprim.kept (Chain.sound hchain hs) (x := .thread t') ?_ (by simp) (by simp) (by simp [ht]))
    simpa [contents, ht] using hp

end Chain

end dce.tkm
