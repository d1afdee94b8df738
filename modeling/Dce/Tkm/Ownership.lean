import Dce.Tkm.Primitives

open lib

namespace dce.tkm

variable {φ ν τ : Type} {L : Layout φ ν}

/-- Every token structure is in at most one place, and its fields fit the place. -/
structure Sound (h : Heap φ ν) (locals : τ → List Ptr) : Prop where
  apart : Apart (contents h locals)
  below : ∀ place, ∀ p ∈ contents h locals place, p < h.allocated
  holder : ∀ holder, ∀ p ∈ h.granted holder, (h.token p).holder = some holder
  held : ∀ p, (h.token p).refcount ≠ 0 → ∃ holder, p ∈ h.granted holder
  granting : ∀ p, (h.token p).granting = true → (h.token p).id ≠ 0 → ∃ holder, p ∈ h.granted holder
  named : ∀ place, place ≠ .free → ∀ p ∈ contents h locals place, (h.token p).id ≠ 0
  newest : ∀ p, (h.token p).id ≤ h.lastTokenId
  distinct : ∀ p q, (h.token p).id = (h.token q).id → (h.token p).id ≠ 0 → p = q

namespace Sound

variable {h h' : Heap φ ν} {locals locals' : τ → List Ptr}

theorem change (hs : Sound h locals) (p : Ptr) (htoken : ∀ q, q ≠ p → h'.token q = h.token q)
    (hapart : Apart (contents h' locals'))
    (hmem : ∀ q, q ≠ p → ∀ place, q ∈ contents h' locals' place ↔ q ∈ contents h locals place)
    (hallocated : h.allocated ≤ h'.allocated) (hlast : h.lastTokenId ≤ h'.lastTokenId)
    (hbelow : ∀ place, p ∈ contents h' locals' place → p < h'.allocated)
    (hholder : ∀ holder, p ∈ h'.granted holder → (h'.token p).holder = some holder)
    (hheld : (h'.token p).refcount ≠ 0 → ∃ holder, p ∈ h'.granted holder)
    (hgranting : (h'.token p).granting = true → (h'.token p).id ≠ 0 → ∃ holder, p ∈ h'.granted holder)
    (hnamed : ∀ place, place ≠ .free → p ∈ contents h' locals' place → (h'.token p).id ≠ 0)
    (hid : (h'.token p).id = 0 ∨ (h'.token p).id = (h.token p).id ∨
      (h'.token p).id = h'.lastTokenId ∧ h.lastTokenId < h'.lastTokenId) : Sound h' locals' where
  apart := hapart
  below place q hq := by
    by_cases hqp : q = p
    · exact hbelow place (hqp ▸ hq) |> fun hlt => hqp ▸ hlt
    · exact Nat.lt_of_lt_of_le (hs.below place q ((hmem q hqp place).mp hq)) hallocated
  holder holder q hq := by
    by_cases hqp : q = p
    · subst hqp
      exact hholder holder hq
    · rw [htoken q hqp]
      exact hs.holder holder q ((hmem q hqp (.granted holder)).mp hq)
  held q hq := by
    by_cases hqp : q = p
    · subst hqp
      exact hheld hq
    · rw [htoken q hqp] at hq
      obtain ⟨holder, hmemq⟩ := hs.held q hq
      exact ⟨holder, (hmem q hqp (.granted holder)).mpr hmemq⟩
  granting q hq hqid := by
    by_cases hqp : q = p
    · subst hqp
      exact hgranting hq hqid
    · rw [htoken q hqp] at hq hqid
      obtain ⟨holder, hmemq⟩ := hs.granting q hq hqid
      exact ⟨holder, (hmem q hqp (.granted holder)).mpr hmemq⟩
  named place hplace q hq := by
    by_cases hqp : q = p
    · subst hqp
      exact hnamed place hplace hq
    · rw [htoken q hqp]
      exact hs.named place hplace q ((hmem q hqp place).mp hq)
  newest q := by
    by_cases hqp : q = p
    · subst hqp
      have hold := hs.newest q
      omega
    · rw [htoken q hqp]
      exact Nat.le_trans (hs.newest q) hlast
  distinct q r hqr hq := by
    by_cases hqp : q = p
    · by_cases hrp : r = p
      · exact hqp.trans hrp.symm
      · subst hqp
        rw [htoken r hrp] at hqr
        have hold := hs.newest r
        rcases hid with hid | hid | hid
        · exact absurd hid hq
        · exact hs.distinct q r (hid ▸ hqr) (hid ▸ hq)
        · omega
    · by_cases hrp : r = p
      · subst hrp
        rw [htoken q hqp] at hqr hq
        have hold := hs.newest q
        rcases hid with hid | hid | hid
        · exact absurd (hqr.trans hid) hq
        · exact hs.distinct q r (hid ▸ hqr) hq
        · omega
      · rw [htoken q hqp, htoken r hrp] at hqr
        rw [htoken q hqp] at hq
        exact hs.distinct q r hqr hq

theorem write (hs : Sound h locals) (hsame : h.SameLists h') (p : Ptr) {t : Token φ ν}
    (htoken : h'.token = (h.setToken p t).token) (hid : t.id = (h.token p).id)
    (hholder : ∀ holder, p ∈ h.granted holder → t.holder = (h.token p).holder)
    (hheld : t.refcount ≠ 0 → ∃ holder, p ∈ h.granted holder)
    (hgranting : t.granting = true → t.id ≠ 0 → ∃ holder, p ∈ h.granted holder) : Sound h' locals := by
  have hcontents : contents h' locals = contents h locals := hsame.contents locals
  have htp : h'.token p = t := by rw [htoken, Heap.setToken_token]
  have hgranted : ∀ holder, h'.granted holder = h.granted holder := hsame.granted
  refine hs.change p (fun q hq => by rw [htoken, Heap.setToken_token_of_ne _ _ hq]) (hcontents ▸ hs.apart)
    (fun q _ place => by rw [hcontents]) (Nat.le_of_eq hsame.allocated.symm) (Nat.le_of_eq hsame.lastTokenId.symm)
    (fun place hp => ?_) (fun holder hp => ?_) ?_ ?_ (fun place hplace hp => ?_) (.inr (.inl (htp ▸ hid)))
  · rw [hcontents] at hp
    exact hsame.allocated ▸ hs.below place p hp
  · rw [hgranted] at hp
    rw [htp, hholder holder hp]
    exact hs.holder holder p hp
  · simpa only [htp, hgranted] using hheld
  · simpa only [htp, hgranted] using hgranting
  · rw [hcontents] at hp
    rw [htp, hid]
    exact hs.named place hplace p hp

theorem congr (hs : Sound h locals) (htoken : h'.token = h.token) (hallocated : h'.allocated = h.allocated)
    (hlast : h'.lastTokenId = h.lastTokenId)
    (hperm : ∀ place, (contents h locals place).Perm (contents h' locals' place)) : Sound h' locals' where
  apart := hs.apart.congr hperm
  below place p hp := hallocated ▸ hs.below place p ((hperm place).mem_iff.mpr hp)
  holder holder p hp := htoken ▸ hs.holder holder p ((hperm (.granted holder)).mem_iff.mpr hp)
  held p hp := by
    obtain ⟨holder, hmem⟩ := hs.held p (htoken ▸ hp)
    exact ⟨holder, (hperm (.granted holder)).mem_iff.mp hmem⟩
  granting p hp hid := by
    obtain ⟨holder, hmem⟩ := hs.granting p (htoken ▸ hp) (htoken ▸ hid)
    exact ⟨holder, (hperm (.granted holder)).mem_iff.mp hmem⟩
  named place hplace p hp := htoken ▸ hs.named place hplace p ((hperm place).mem_iff.mpr hp)
  newest p := by
    rw [htoken, hlast]
    exact hs.newest p
  distinct p q hpq hp := hs.distinct p q (htoken ▸ hpq) (htoken ▸ hp)

variable {x : Place φ ν τ} {p : Ptr}

theorem not_granted (hs : Sound h locals) (hp : p ∈ contents h locals x)
    (hplace : ∀ holder, x ≠ .granted holder) (holder : Holder φ ν) : p ∉ h.granted holder := fun hgranted =>
  hplace holder (hs.apart.unique hp (y := .granted holder) hgranted)

theorem refcount_eq_zero (hs : Sound h locals) (hp : p ∈ contents h locals x)
    (hplace : ∀ holder, x ≠ .granted holder) : (h.token p).refcount = 0 := by
  by_contra hheld
  obtain ⟨holder, hgranted⟩ := hs.held p hheld
  exact hs.not_granted hp hplace holder hgranted

theorem move (hs : Sound h locals) {y : Place φ ν τ} (hne : x ≠ y)
    (hfrom : (contents h locals x).Perm (p :: contents h' locals' x))
    (hto : (contents h' locals' y).Perm (p :: contents h locals y))
    (hrest : ∀ z, z ≠ x → z ≠ y → (contents h' locals' z).Perm (contents h locals z))
    (htoken : ∀ q, q ≠ p → h'.token q = h.token q) (hallocated : h'.allocated = h.allocated)
    (hlast : h.lastTokenId ≤ h'.lastTokenId) (hholder : ∀ holder, y = .granted holder → (h'.token p).holder = some holder)
    (hheld : (h'.token p).refcount ≠ 0 → ∃ holder, y = .granted holder)
    (hgranting : (h'.token p).granting = true → (h'.token p).id ≠ 0 → ∃ holder, y = .granted holder)
    (hnamed : y ≠ .free → (h'.token p).id ≠ 0)
    (hid : (h'.token p).id = 0 ∨ (h'.token p).id = (h.token p).id ∨
      (h'.token p).id = h'.lastTokenId ∧ h.lastTokenId < h'.lastTokenId) : Sound h' locals' := by
  have hmoved := hs.apart.mem_move hne hfrom hto hrest
  have hwhere : ∀ z, p ∈ contents h' locals' z → z = y := fun z hz => by
    obtain ⟨-, hz⟩ | ⟨hpp, -⟩ := (hmoved p z).mp hz
    · exact hz
    · exact absurd rfl hpp
  have hgranted : ∀ holder, y = .granted holder → p ∈ h'.granted holder := fun holder hy =>
    (hmoved p (.granted holder)).mpr (.inl ⟨rfl, hy.symm⟩)
  refine hs.change p htoken (hs.apart.move hne hfrom hto hrest) (fun q hq z => by simp [hmoved, hq])
    (Nat.le_of_eq hallocated.symm) hlast (fun z _ => hallocated ▸ hs.below x p (hfrom.mem_iff.mpr List.mem_cons_self))
    (fun holder hp => hholder holder (hwhere (.granted holder) hp).symm) (fun h => ?_) (fun hg hgid => ?_)
    (fun z hz hp => hnamed (hwhere z hp ▸ hz)) hid
  · exact (hheld h).imp hgranted
  · exact (hgranting hg hgid).imp hgranted

variable [DecidableEq τ] {t : τ} {others : τ → List Ptr} {l l' : List Ptr}

theorem mem_local (hp : p ∈ l) : p ∈ contents h (Function.update others t l) (.thread t) := by
  simpa [contents] using hp

theorem contents_update (h : Heap φ ν) {z : Place φ ν τ} (hz : ∀ t', z ≠ .thread t') :
    contents h (Function.update others t l) z = contents h others z := by
  cases z with
  | thread t' => exact absurd rfl (hz t')
  | _ => rfl

theorem contents_rest (hother : ∀ z, (∀ t', z ≠ .thread t') → z ≠ x → contents h' others z = contents h others z)
    (z : Place φ ν τ) (hzt : z ≠ .thread t) (hz : z ≠ x) :
    (contents h' (Function.update others t l') z).Perm (contents h (Function.update others t l) z) := by
  by_cases hthreads : ∃ t', z = .thread t'
  · obtain ⟨t', rfl⟩ := hthreads
    have ht : t' ≠ t := fun h => hzt (h ▸ rfl)
    simp [contents, ht]
  · have hz' : ∀ t', z ≠ .thread t' := fun t' h => hthreads ⟨t', h⟩
    rw [contents_update _ hz', contents_update _ hz', hother z hz' hz]

theorem give (hs : Sound h (Function.update others t (p :: l)))
    (hplace : ∀ t', x ≠ .thread t') (htoken : ∀ q, q ≠ p → h'.token q = h.token q)
    (hto : contents h' others x = p :: contents h others x)
    (hother : ∀ z, (∀ t', z ≠ .thread t') → z ≠ x → contents h' others z = contents h others z)
    (hallocated : h'.allocated = h.allocated) (hlast : h'.lastTokenId = h.lastTokenId)
    (hrefcount : (h'.token p).refcount = (h.token p).refcount)
    (hid : x = .free ∧ (h'.token p).id = 0 ∨ (h'.token p).id = (h.token p).id)
    (hholder : ∀ holder, x = .granted holder → (h'.token p).holder = some holder)
    (hgranting : (h'.token p).granting = true → (h'.token p).id ≠ 0 → (h.token p).granting = true ∨
      ∃ holder, x = .granted holder) :
    Sound h' (Function.update others t l) := by
  have hlocal : p ∈ contents h (Function.update others t (p :: l)) (.thread t) := mem_local List.mem_cons_self
  refine hs.move (hplace t).symm (by simp [contents]) ?_ (contents_rest hother) htoken hallocated
    (Nat.le_of_eq hlast.symm) hholder (fun hheld => ?_) (fun hg hgid => ?_) (fun hfree => ?_) (hid.imp And.right .inl)
  · rw [contents_update _ hplace, contents_update _ hplace, hto]
  · rw [hrefcount] at hheld
    exact absurd (hs.refcount_eq_zero hlocal fun _ => by simp) hheld
  · refine (hgranting hg hgid).elim (fun hold => ?_) id
    obtain ⟨holder, hgranted⟩ := hs.granting p hold (hs.named _ (by simp) p hlocal)
    exact absurd hgranted (hs.not_granted hlocal (fun _ => by simp) holder)
  · rw [hid.resolve_left fun h => hfree h.1]
    exact hs.named _ (by simp) p hlocal

theorem get (hs : Sound h (Function.update others t l))
    (hplace : ∀ t', x ≠ .thread t') (hgranted : ∀ holder, x ≠ .granted holder)
    (htoken : ∀ q, q ≠ p → h'.token q = h.token q)
    (hfrom : (contents h others x).Perm (p :: contents h' others x))
    (hother : ∀ z, (∀ t', z ≠ .thread t') → z ≠ x → contents h' others z = contents h others z)
    (hallocated : h'.allocated = h.allocated) (hlast : h.lastTokenId ≤ h'.lastTokenId)
    (hp : x ≠ .free ∧ h'.token p = h.token p ∨
      (h'.token p).id = h'.lastTokenId ∧ h.lastTokenId < h'.lastTokenId ∧ (h'.token p).refcount = 0 ∧
        (h'.token p).granting = false) :
    Sound h' (Function.update others t (p :: l)) := by
  have hmem : p ∈ contents h (Function.update others t l) x := by
    rw [contents_update _ hplace, hfrom.mem_iff]
    exact List.mem_cons_self
  refine hs.move (hplace t) ?_ (by simp [contents]) (fun z hz hzt => contents_rest hother z hzt hz) htoken hallocated
    hlast (fun _ h => absurd h (by simp)) (fun hheld => ?_) (fun hg hgid => ?_) (fun _ => ?_) ?_
  · rw [contents_update _ hplace, contents_update _ hplace]
    exact hfrom
  · obtain ⟨-, hp⟩ | ⟨-, -, hp, -⟩ := hp
    · exact absurd (hs.refcount_eq_zero hmem hgranted) (hp ▸ hheld)
    · exact absurd hp hheld
  · obtain ⟨-, hp⟩ | ⟨-, -, -, hp⟩ := hp
    · obtain ⟨holder, hgr⟩ := hs.granting p (hp ▸ hg) (hp ▸ hgid)
      exact absurd hgr (hs.not_granted hmem hgranted holder)
    · exact absurd hg (by simp [hp])
  · obtain ⟨hfree, hp⟩ | ⟨hp, hlt, -⟩ := hp
    · rw [hp]
      exact hs.named x hfree p hmem
    · omega
  · obtain ⟨-, hp⟩ | ⟨hp, hlt, -⟩ := hp
    · exact .inr (.inl (congrArg Token.id hp))
    · exact .inr (.inr ⟨hp, hlt⟩)

end Sound

variable [DecidableEq φ] [DecidableEq ν] [DecidableEq τ]

variable {p : Ptr}

theorem Sound.grant {h h' : Heap φ ν} {l : List Ptr} {tok : Token φ ν} {t : τ} {others : τ → List Ptr}
    (hs : Sound h (Function.update others t (p :: l))) (hid : tok.id = (h.token p).id)
    (hrefcount : tok.refcount = (h.token p).refcount)
    (hgrant : tkm_GrantHolderToken L (h.setToken p tok) p = some h') : Sound h' (Function.update others t l) := by
  obtain ⟨holder, hholder, hgrants⟩ := tkm_GrantHolderToken_spec hgrant
  have htoken : h'.token = (h.setToken p tok).token := hgrants.token
  have htp : h'.token p = tok := by rw [htoken, Heap.setToken_token]
  rw [Heap.setToken_token] at hholder
  refine hs.give (by simp) (fun q hq => by rw [htoken, Heap.setToken_token_of_ne _ _ hq])
    (by simp [contents, hgrants.granted]) (fun z hz hne => ?_) hgrants.allocated hgrants.lastTokenId (htp ▸ hrefcount)
    (.inr (htp ▸ hid)) (fun holder' h => ?_) fun _ _ => .inr ⟨holder, rfl⟩
  · cases z with
    | free => exact hgrants.freeTokens
    | granted holder' =>
      have hne : holder' ≠ holder := fun h => hne (h ▸ rfl)
      simp [contents, hgrants.granted, hne]
    | shelf s => simp [contents, hgrants.shelf]
    | thread t' => exact absurd rfl (hz t')
  · rw [htp, hholder, ← Place.granted.inj h]

theorem Sound.unshelve {h : Heap φ ν} {s : Shelf φ ν} {l : List Ptr} {t : τ} {others : τ → List Ptr}
    (hs : Sound h (Function.update others t l)) (hp : p ∈ h.shelf s) :
    Sound (h.setShelf s ((h.shelf s).erase p)) (Function.update others t (p :: l)) := by
  refine hs.get (x := .shelf s) (by simp) (by simp) (fun q _ => by simp) ?_ (fun z _ hne => contents_setShelf hne)
    (by simp) (Nat.le_of_eq (by simp)) (.inl ⟨by simp, by simp⟩)
  simpa [contents, Heap.setShelf_shelf] using List.perm_cons_erase hp

theorem Prim.sound {k : Kind} {a b : Heap φ ν × List Ptr} (hprim : Prim L k a b) {t : τ} {others : τ → List Ptr}
    (hs : Sound a.1 (Function.update others t a.2)) : Sound b.1 (Function.update others t b.2) := by
  cases hprim with
  | alloc h l =>
    have hfresh : ∀ z, h.allocated ∉ contents h (Function.update others t l) z := fun z hz =>
      Nat.lt_irrefl _ (hs.below z _ hz)
    set h' := tkm_PutTokenInFreeList { h with allocated := h.allocated + 1 } h.allocated
    have hto : (contents h' (Function.update others t l) .free).Perm
        (h.allocated :: contents h (Function.update others t l) .free) := .refl _
    have hother : ∀ z, z ≠ .free → contents h' (Function.update others t l) z =
        contents h (Function.update others t l) z := fun z hz => contents_PutTokenInFreeList hz
    have htoken : ∀ q, q ≠ h.allocated → h'.token q = h.token q := fun q hq => Heap.setToken_token_of_ne _ _ hq
    have hid : (h'.token h.allocated).id = 0 := by simp [h', tkm_PutTokenInFreeList]
    have hwhere : ∀ z, h.allocated ∈ contents h' (Function.update others t l) z → z = .free := fun z hz => by
      by_contra hne
      rw [hother z hne] at hz
      exact hfresh z hz
    have hnot : ∀ holder, h.allocated ∉ h.granted holder := fun holder => hfresh (.granted holder)
    refine hs.change h.allocated htoken (hs.apart.add hfresh hto fun z hz => .of_eq (hother z hz)) (fun q hq z => ?_)
      (Nat.le_succ _) (Nat.le_refl _) (fun z _ => Nat.lt_succ_self _) (fun holder hp => absurd (hwhere (.granted holder) hp) (by simp))
      (fun hheld => ?_) (fun hg hne => absurd hid hne) (fun z hz hp => absurd (hwhere z hp) hz) (.inl hid)
    · by_cases hz : z = .free
      · subst hz
        exact Apart.mem_iff_of_ne hq (.inr (.inr hto))
      · rw [hother z hz]
    · have hold : (h.token h.allocated).refcount ≠ 0 := by simpa [h', tkm_PutTokenInFreeList] using hheld
      obtain ⟨holder, hgranted⟩ := hs.held _ hold
      exact absurd hgranted (hnot holder)
  | take l htake =>
    rename_i h h' p
    obtain ⟨rest, hfree, rfl⟩ := tkm_GetFreeToken_spec htake
    refine hs.get (x := .free) (by simp) (by simp) (fun q hq => Heap.setToken_token_of_ne _ _ hq)
      (by simp [contents, hfree]) (fun z hz hne => ?_) rfl (Nat.le_succ _)
      (.inr ⟨by simp [Token.blank, Heap.setToken], Nat.lt_succ_self _, by simp [Token.blank, Heap.setToken],
        by simp [Token.blank, Heap.setToken]⟩)
    rcases z with _ | (f | v) | ((f | v) | v) | t'
    · exact absurd rfl hne
    all_goals rfl
  | put h p l =>
    exact hs.give (by simp) (fun q hq => Heap.setToken_token_of_ne _ _ hq) rfl
      (fun z _ hne => contents_PutTokenInFreeList hne) rfl rfl (by simp [tkm_PutTokenInFreeList])
      (.inl ⟨rfl, by simp [tkm_PutTokenInFreeList]⟩) (by simp) fun hg _ => .inl (by simpa [tkm_PutTokenInFreeList] using hg)
  | fill h p l tok hid hrefcount hgranting htypes =>
    have hlocal : p ∈ contents h (Function.update others t (p :: l)) (.thread t) := Sound.mem_local List.mem_cons_self
    refine hs.write (.setToken h p tok) p rfl hid (fun holder hp => absurd hp (hs.not_granted hlocal (by simp) holder))
      (fun hheld => ?_) fun hg hgid => hs.granting p (hgranting ▸ hg) (hid ▸ hgid)
    exact hs.held p (hrefcount ▸ hheld)
  | slice l hid hrefcount _ _ _ _ hgrant => exact hs.grant hid hrefcount hgrant
  | grant l hid hrefcount _ hgrant => exact hs.grant hid hrefcount hgrant
  | drop l hp hdrop =>
    rename_i h h' p holder types
    obtain ⟨hsame, htoken⟩ := dropTypes_spec hdrop
    exact hs.write hsame p htoken rfl (fun _ _ => rfl) (fun _ => ⟨holder, hp⟩) fun _ _ => ⟨holder, hp⟩
  | recycle l htypes hrefcount hreturn =>
    rename_i h h' p
    obtain ⟨holder, hholder, hreturns⟩ := tkm_ReturnHolderToken_spec hreturn
    set h₂ := tkm_PutTokenInFreeList h' p
    have hfrom : (contents h (Function.update others t l) (.granted holder)).Perm
        (p :: contents h₂ (Function.update others t l) (.granted holder)) := by
      have herase : h₂.granted holder = (h.granted holder).erase p := by simp [h₂, hreturns.granted]
      simp only [contents, herase]
      exact List.perm_cons_erase hreturns.mem
    have hto : (contents h₂ (Function.update others t l) .free).Perm
        (p :: contents h (Function.update others t l) .free) := by
      simp [contents, h₂, tkm_PutTokenInFreeList, hreturns.freeTokens]
    have hrest : ∀ z, z ≠ .granted holder → z ≠ .free → (contents h₂ (Function.update others t l) z).Perm
        (contents h (Function.update others t l) z) := fun z hz hzf => by
      rw [contents_PutTokenInFreeList hzf]
      cases z with
      | free => exact absurd rfl hzf
      | granted holder' =>
        have hne : holder' ≠ holder := fun h => hz (h ▸ rfl)
        simp [contents, hreturns.granted, hne]
      | shelf s => simp [contents, hreturns.shelf]
      | thread t' => exact .refl _
    have hid : (h₂.token p).id = 0 := by simp [h₂, tkm_PutTokenInFreeList]
    refine hs.move (by simp) hfrom hto hrest (fun q hq => ?_) hreturns.allocated (Nat.le_of_eq hreturns.lastTokenId.symm)
      (fun _ h => absurd h (by simp)) (fun hheld => ?_) (fun _ hne => absurd hid hne) (fun hfree => absurd rfl hfree)
      (.inl hid)
    · exact (Heap.setToken_token_of_ne _ _ hq).trans (congrFun hreturns.token q)
    · exact absurd hrefcount (by simpa [h₂, tkm_PutTokenInFreeList, hreturns.token] using hheld)
  | touch h l p htouched htypes hrefcount hgranting =>
    rename_i tok
    refine hs.write (.setToken h p tok) p rfl htouched.id (fun _ _ => htouched.holder) (fun hheld => ?_) fun hg hgid => ?_
    · rcases hrefcount hheld with hheld | hgranted
      · exact hs.held p hheld
      · exact hgranted
    · exact hs.granting p (hgranting hg) (htouched.id ▸ hgid)
  | adjust h l hp htypes =>
    rename_i p holder types
    exact hs.write (.setToken ..) p rfl rfl (fun _ _ => rfl) (fun _ => ⟨holder, hp⟩) fun _ _ => ⟨holder, hp⟩
  | host h l f host =>
    refine hs.congr rfl rfl rfl fun z => ?_
    rcases z with _ | (g | v) | ((g | v) | v) | t'
    · exact .refl _
    · by_cases hg : g = f <;> simp [contents, Heap.granted, Heap.setFile, hg]
    · exact .refl _
    · by_cases hg : g = f <;> simp [contents, Heap.shelf, Heap.setFile, hg]
    all_goals exact .refl _
  | shelve h s p l =>
    refine hs.give (x := .shelf s) (by simp) (fun q _ => by simp) (by simp [contents, Heap.setShelf_shelf])
      (fun z _ hne => contents_setShelf hne) (by simp) (by simp) (by simp) (.inr (by simp)) (by simp)
      fun hg _ => .inl (by simpa using hg)
  | unqueue h holder l hp => exact hs.unshelve hp
  | unbeing h v l hp => exact hs.unshelve hp
  | perm h hperm =>
    refine hs.congr rfl rfl rfl fun z => ?_
    rcases z with _ | holder | s | t'
    · exact .refl _
    · exact .refl _
    · exact .refl _
    · by_cases ht : t' = t <;> simp [contents, ht, hperm]
  | forget h p l =>
    have hfrom : (contents h (Function.update others t (p :: l)) (.thread t)).Perm
        (p :: contents h (Function.update others t l) (.thread t)) := by simp [contents]
    have hother : ∀ z, z ≠ .thread t → contents h (Function.update others t l) z =
        contents h (Function.update others t (p :: l)) z := fun z hz => by
      cases z with
      | thread t' =>
        have ht : t' ≠ t := fun h => hz (h ▸ rfl)
        simp [contents, ht]
      | _ => rfl
    have hmem : ∀ z q, q ∈ contents h (Function.update others t l) z →
        q ∈ contents h (Function.update others t (p :: l)) z := fun z q hq => by
      by_cases hz : z = .thread t
      · subst hz
        exact hfrom.mem_iff.mpr (List.mem_cons_of_mem _ hq)
      · exact hother z hz ▸ hq
    exact ⟨hs.apart.drop hfrom fun z hz => .of_eq (hother z hz), fun z q hq => hs.below z q (hmem z q hq), hs.holder,
      hs.held, hs.granting, fun z hz q hq => hs.named z hz q (hmem z q hq), hs.newest, hs.distinct⟩

/-- What a primitive does to the tokens: one of them changes. Unless it loses its id
it stays granted, and it has types added only before it is granted. -/
structure Heap.Changes (h h' : Heap φ ν) (p : Ptr) : Prop where
  token : ∀ q, q ≠ p → h'.token q = h.token q
  granted : ∀ q, q ≠ p → ∀ holder, q ∈ h'.granted holder ↔ q ∈ h.granted holder
  lastTokenId : h.lastTokenId ≤ h'.lastTokenId
  self : (h'.token p).id = 0 ∨ h.lastTokenId < (h'.token p).id ∨
    (h'.token p).id = (h.token p).id ∧ (∀ holder, p ∈ h.granted holder → p ∈ h'.granted holder) ∧
      ((h'.token p).granting = true ∨ (∀ holder, p ∉ h'.granted holder) →
        ((h.token p).granting = true ∨ ∀ holder, p ∉ h.granted holder) ∧ (h.token p).types ⊆ (h'.token p).types)

omit [DecidableEq φ] [DecidableEq ν] [DecidableEq τ] in
theorem Heap.Changes.of_eq {h h' : Heap φ ν} (p : Ptr) (htoken : h'.token = h.token)
    (hgranted : ∀ holder, h'.granted holder = h.granted holder) (hlast : h'.lastTokenId = h.lastTokenId) :
    h.Changes h' p where
  token q _ := congrFun htoken q
  granted q _ holder := by rw [hgranted]
  lastTokenId := Nat.le_of_eq hlast.symm
  self := .inr (.inr (by simp [htoken, hgranted]))

theorem Heap.Changes.grant {h h' : Heap φ ν} {l : List Ptr} {tok : Token φ ν} {t : τ}
    {others : τ → List Ptr} (hs : Sound h (Function.update others t (p :: l))) (hid : tok.id = (h.token p).id)
    (htypes : (h.token p).types ⊆ tok.types) (hgrant : tkm_GrantHolderToken L (h.setToken p tok) p = some h') :
    h.Changes h' p := by
  obtain ⟨holder, hholder, hgrants⟩ := tkm_GrantHolderToken_spec hgrant
  have hnot := hs.not_granted (Sound.mem_local List.mem_cons_self) fun _ => by simp
  have htp : h'.token p = tok := by rw [hgrants.token, Heap.setToken_token]
  refine ⟨fun q hq => ?_, fun q hq holder' => ?_, Nat.le_of_eq hgrants.lastTokenId.symm, .inr (.inr ⟨?_, ?_, ?_⟩)⟩
  · rw [hgrants.token, Heap.setToken_token_of_ne _ _ hq]
  · rw [hgrants.granted]
    by_cases hh : holder' = holder
    · simp [hh, hq]
    · simp [hh]
  · rw [htp, hid]
  · exact fun holder hp => absurd hp (hnot holder)
  · exact fun _ => ⟨.inr hnot, htp ▸ htypes⟩

theorem Prim.changes {k : Kind} {a b : Heap φ ν × List Ptr} (hprim : Prim L k a b) {t : τ} {others : τ → List Ptr}
    (hs : Sound a.1 (Function.update others t a.2)) : ∃ p, a.1.Changes b.1 p := by
  cases hprim with
  | alloc h l =>
    refine ⟨h.allocated, fun q hq => Heap.setToken_token_of_ne _ _ hq, fun q _ holder => ?_, Nat.le_refl _,
      .inl (by simp [tkm_PutTokenInFreeList])⟩
    cases holder <;> rfl
  | take l htake =>
    rename_i h h' p
    obtain ⟨rest, -, rfl⟩ := tkm_GetFreeToken_spec htake
    refine ⟨p, fun q hq => Heap.setToken_token_of_ne _ _ hq, fun q _ holder => ?_, Nat.le_succ _,
      .inr (.inl (by simp [Token.blank, Heap.setToken]))⟩
    cases holder <;> rfl
  | put h p l =>
    refine ⟨p, fun q hq => Heap.setToken_token_of_ne _ _ hq, fun q _ holder => ?_, Nat.le_refl _,
      .inl (by simp [tkm_PutTokenInFreeList])⟩
    cases holder <;> rfl
  | fill h p l tok hid hrefcount hgranting htypes =>
    refine ⟨p, fun q hq => Heap.setToken_token_of_ne _ _ hq, fun q _ holder => by simp, Nat.le_refl _,
      .inr (.inr ⟨by simp [hid], by simp, ?_⟩)⟩
    have hnot := hs.not_granted (Sound.mem_local List.mem_cons_self) fun _ => by simp
    exact fun _ => ⟨.inr hnot, by simpa using htypes⟩
  | slice l hid _ htypes _ _ _ hgrant => exact ⟨_, .grant hs hid htypes hgrant⟩
  | grant l hid _ htypes hgrant => exact ⟨_, .grant hs hid htypes hgrant⟩
  | drop l hp hdrop =>
    rename_i h h' p holder types
    obtain ⟨hsame, htoken⟩ := dropTypes_spec hdrop
    refine ⟨p, fun q hq => by rw [htoken, Heap.setToken_token_of_ne _ _ hq], fun q _ holder => by rw [hsame.granted],
      Nat.le_of_eq hsame.lastTokenId.symm, .inr (.inr ⟨by simp [htoken, Token.without], fun _ hp => ?_, fun hg => ?_⟩)⟩
    · rwa [hsame.granted]
    · simp only [htoken, Heap.setToken_token, Token.without, Bool.and_eq_true, decide_eq_true_eq, hsame.granted] at hg ⊢
      rcases hg with ⟨hg, hinter⟩ | hnot
      · exact ⟨.inl hg, (Finset.sdiff_eq_self_of_disjoint (Finset.disjoint_iff_inter_eq_empty.mpr hinter)).ge⟩
      · exact absurd hp (hnot holder)
  | recycle l htypes hrefcount hreturn =>
    rename_i h h' p
    obtain ⟨holder, hholder, hreturns⟩ := tkm_ReturnHolderToken_spec hreturn
    refine ⟨p, fun q hq => ?_, fun q hq holder' => ?_, Nat.le_of_eq hreturns.lastTokenId.symm,
      .inl (by simp [tkm_PutTokenInFreeList])⟩
    · exact (Heap.setToken_token_of_ne _ _ hq).trans (congrFun hreturns.token q)
    · rw [tkm_PutTokenInFreeList_granted, hreturns.granted]
      by_cases hh : holder' = holder
      · simp [hh, List.mem_erase_of_ne hq]
      · simp [hh]
  | touch h l p htouched htypes hrefcount hgranting =>
    rename_i tok
    refine ⟨p, fun q hq => Heap.setToken_token_of_ne _ _ hq, fun q _ holder => by simp, Nat.le_refl _, ?_⟩
    by_cases hid : (h.token p).id = 0
    · exact .inl (by simp [htouched.id, hid])
    · refine .inr (.inr ⟨by simp [htouched.id], by simp, fun hg => ⟨?_, by simp [htypes hid]⟩⟩)
      simp only [Heap.setToken_token, Heap.setToken_granted] at hg
      exact hg.imp_left hgranting
  | adjust h l hp htypes =>
    rename_i p holder types
    refine ⟨p, fun q hq => Heap.setToken_token_of_ne _ _ hq, fun q _ holder => by simp, Nat.le_refl _,
      .inr (.inr ⟨by simp, by simp, fun hg => ?_⟩)⟩
    simp only [Heap.setToken_token, Heap.setToken_granted, Bool.false_eq_true, false_or] at hg
    exact absurd hp (hg holder)
  | host h l f host =>
    refine ⟨0, .of_eq 0 rfl (fun holder => ?_) rfl⟩
    rcases holder with g | v
    · by_cases hg : g = f <;> simp [Heap.granted, Heap.setFile, hg]
    · rfl
  | shelve h s p l => exact ⟨0, .of_eq 0 (by simp) (by simp) (by simp)⟩
  | unqueue h holder l hp => exact ⟨0, .of_eq 0 (by simp) (by simp) (by simp)⟩
  | unbeing h v l hp => exact ⟨0, .of_eq 0 (by simp) (by simp) (by simp)⟩
  | perm h hperm => exact ⟨0, .of_eq 0 rfl (fun _ => rfl) rfl⟩
  | forget h p l => exact ⟨0, .of_eq 0 rfl (fun _ => rfl) rfl⟩

end dce.tkm
