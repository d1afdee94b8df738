import Dce.Tkm.Places

open lib

namespace dce.tkm

variable {φ ν τ : Type} [DecidableEq φ] [DecidableEq ν] {L : Layout φ ν}

/-- The token `t'` may be written over `t` without any of its types being withdrawn. -/
structure Token.Touched (t t' : Token φ ν) : Prop where
  id : t'.id = t.id
  range : t'.range = t.range
  holder : t'.holder = t.holder
  host : t'.host = t.host

/-- What the steps are made of, by what they can do to a claim about the tokens. -/
inductive Kind where
  | plain
  /-- The grant of a slice of a granted token. -/
  | slice
  /-- Any other grant. -/
  | grant
  /-- Some of the types of an offered slice are taken away without the masks. -/
  | mixed
  /-- The token of a volume leaves the list `beingGranted`. -/
  | unbeing (p : Ptr)
  /-- A token structure is forgotten. -/
  | leak

/-- A token that is made from the token `t` may be a slice of it. -/
structure Token.SliceOf (t' t : Token φ ν) : Prop where
  host : t'.host = t.host
  types : t'.types ⊆ t.types
  range : t'.range.Inside t.range

/-- One change of the heap by a thread, with its local token structures. -/
inductive Prim (L : Layout φ ν) : Kind → Heap φ ν × List Ptr → Heap φ ν × List Ptr → Prop where
  | alloc (h : Heap φ ν) (l : List Ptr) :
    Prim L .plain (h, l) (tkm_PutTokenInFreeList { h with allocated := h.allocated + 1 } h.allocated, l)
  | take {h h' : Heap φ ν} {p : Ptr} (l : List Ptr) (htake : tkm_GetFreeToken h = some (p, h')) :
    Prim L .plain (h, l) (h', p :: l)
  | put (h : Heap φ ν) (p : Ptr) (l : List Ptr) : Prim L .plain (h, p :: l) (tkm_PutTokenInFreeList h p, l)
  /-- A local token is filled in. -/
  | fill (h : Heap φ ν) (p : Ptr) (l : List Ptr) (t : Token φ ν) (hid : t.id = (h.token p).id)
    (hrefcount : t.refcount = (h.token p).refcount) (hgranting : t.granting = (h.token p).granting)
    (htypes : (h.token p).types ⊆ t.types) : Prim L .plain (h, p :: l) (h.setToken p t, p :: l)
  | slice {h h' : Heap φ ν} {p q : Ptr} (l : List Ptr) {t : Token φ ν} {holder : Holder φ ν}
    (hid : t.id = (h.token p).id) (hrefcount : t.refcount = (h.token p).refcount)
    (htypes : (h.token p).types ⊆ t.types) (hholder : t.holder = some holder) (hq : q ∈ h.granted holder)
    (hslice : t.SliceOf (h.token q)) (hgrant : tkm_GrantHolderToken L (h.setToken p t) p = some h') :
    Prim L .slice (h, p :: l) (h', l)
  | grant {h h' : Heap φ ν} {p : Ptr} (l : List Ptr) {t : Token φ ν} (hid : t.id = (h.token p).id)
    (hrefcount : t.refcount = (h.token p).refcount) (htypes : (h.token p).types ⊆ t.types)
    (hgrant : tkm_GrantHolderToken L (h.setToken p t) p = some h') : Prim L .grant (h, p :: l) (h', l)
  | drop {h h' : Heap φ ν} {p : Ptr} (l : List Ptr) {holder : Holder φ ν} {types : Types}
    (hp : p ∈ h.granted holder) (hdrop : dropTypes L h p types = some h') : Prim L .plain (h, l) (h', l)
  | recycle {h h' : Heap φ ν} {p : Ptr} (l : List Ptr) (htypes : (h.token p).types = ∅)
    (hrefcount : (h.token p).refcount = 0) (hreturn : tkm_ReturnHolderToken h p = some h') :
    Prim L .plain (h, l) (tkm_PutTokenInFreeList h' p, l)
  /-- A flag is cleared, or the references to a granted token change. -/
  | touch (h : Heap φ ν) (l : List Ptr) (p : Ptr) {t : Token φ ν} (htouched : (h.token p).Touched t)
    (htypes : (h.token p).id ≠ 0 → t.types = (h.token p).types)
    (hrefcount : t.refcount ≠ 0 → (h.token p).refcount ≠ 0 ∨ ∃ holder, p ∈ h.granted holder)
    (hgranting : t.granting = true → (h.token p).granting = true) : Prim L .plain (h, l) (h.setToken p t, l)
  | adjust (h : Heap φ ν) (l : List Ptr) {p : Ptr} {holder : Holder φ ν} {types : Types}
    (hp : p ∈ h.granted holder) (htypes : types ⊆ (h.token p).types) :
    Prim L .mixed (h, l) (h.setToken p { h.token p with types := types, granting := false }, l)
  | host (h : Heap φ ν) (l : List Ptr) (f : φ) (host : Option Host) :
    Prim L .grant (h, l) (h.setFile f { h.file f with host := host }, l)
  | shelve (h : Heap φ ν) (s : Shelf φ ν) (p : Ptr) (l : List Ptr) :
    Prim L .plain (h, p :: l) (h.setShelf s (p :: h.shelf s), l)
  | unqueue (h : Heap φ ν) (holder : Holder φ ν) {p : Ptr} (l : List Ptr) (hp : p ∈ h.shelf (.queued holder)) :
    Prim L .plain (h, l) (h.setShelf (.queued holder) ((h.shelf (.queued holder)).erase p), p :: l)
  | unbeing (h : Heap φ ν) (v : ν) {p : Ptr} (l : List Ptr) (hp : p ∈ h.shelf (.beingGranted v)) :
    Prim L (.unbeing p) (h, l) (h.setShelf (.beingGranted v) ((h.shelf (.beingGranted v)).erase p), p :: l)
  | perm (h : Heap φ ν) {l l' : List Ptr} (hperm : l.Perm l') : Prim L .plain (h, l) (h, l')
  | forget (h : Heap φ ν) (p : Ptr) (l : List Ptr) : Prim L .leak (h, p :: l) (h, l)

/-! What the primitives do to the lists -/

variable {h h' : Heap φ ν} {p : Ptr}

theorem TKM_REMOVE_FROM_MASK_spec {types : Types}
    (hremove : TKM_REMOVE_FROM_MASK L h p types = some h') : h.SameLists h' ∧ h'.token = h.token := by
  rw [TKM_REMOVE_FROM_MASK] at hremove
  split at hremove
  · simp at hremove
  · next v _ =>
    obtain ⟨mask, _, rfl⟩ := Option.map_eq_some_iff.mp hremove
    exact ⟨h.setVolume_same v _ rfl rfl rfl rfl, rfl⟩
  · next f _ =>
    obtain ⟨mask, _, hremove⟩ := Option.bind_eq_some_iff.mp hremove
    obtain ⟨fileTokens, _, rfl⟩ := Option.map_eq_some_iff.mp hremove
    have hfile := h.setFile_same f { h.file f with granted := ⟨mask, (h.file f).granted.list⟩ } rfl rfl rfl rfl
    exact ⟨hfile.trans (Heap.setVolume_same _ _ _ rfl rfl rfl rfl), rfl⟩

omit [DecidableEq φ] [DecidableEq ν] in
theorem tkm_GetFreeToken_spec (htake : tkm_GetFreeToken h = some (p, h')) : ∃ rest, h.freeTokens = p :: rest ∧
    h' = { h.setToken p (Token.blank (h.lastTokenId + 1)) with freeTokens := rest, lastTokenId := h.lastTokenId + 1 } := by
  rw [tkm_GetFreeToken] at htake
  split at htake
  · simp at htake
  · next p' rest hfree =>
    obtain ⟨rfl, rfl⟩ := Prod.mk.inj (Option.some.inj htake)
    exact ⟨rest, hfree, rfl⟩

/-- The token that `dropTypes` leaves. -/
def Token.without (t : Token φ ν) (types : Types) : Token φ ν :=
  { t with
    types := t.types \ types
    refused := t.refused \ types
    granting := t.granting && decide (t.types ∩ types = ∅) }

theorem dropTypes_spec {types : Types} (hdrop : dropTypes L h p types = some h') :
    h.SameLists h' ∧ h'.token = (h.setToken p ((h.token p).without types)).token := by
  rw [dropTypes] at hdrop
  dsimp only at hdrop
  split at hdrop
  · next hkeep =>
    obtain rfl := Option.some.inj hdrop
    exact ⟨.setToken .., by simp [Token.without, hkeep]⟩
  · next hremoved =>
    split at hdrop
    · simp at hdrop
    · obtain ⟨h₁, hmask, rfl⟩ := Option.map_eq_some_iff.mp hdrop
      obtain ⟨hsame, htoken⟩ := TKM_REMOVE_FROM_MASK_spec hmask
      exact ⟨hsame.trans (.setToken ..), by simp [Heap.setToken, Token.without, hremoved, htoken]⟩

/-- The heap `h'` after `p` was put in the granted list of its holder. -/
structure Heap.Grants (L : Layout φ ν) (h : Heap φ ν) (p : Ptr) (holder : Holder φ ν) (h' : Heap φ ν) : Prop where
  token : h'.token = h.token
  allocated : h'.allocated = h.allocated
  lastTokenId : h'.lastTokenId = h.lastTokenId
  freeTokens : h'.freeTokens = h.freeTokens
  shelf : ∀ s, h'.shelf s = h.shelf s
  host : ∀ f, (h'.file f).host = (h.file f).host
  granted : ∀ holder', h'.granted holder' = if holder' = holder then p :: h.granted holder else h.granted holder'
  tokenGrants : ∀ holder', h'.tokenGrants holder' =
    if holder' = holder ∨ holder' = .volume (holder.vol L) then h.tokenGrants holder' + 1 else h.tokenGrants holder'

theorem tkm_GrantHolderToken_spec (hgrant : tkm_GrantHolderToken L h p = some h') :
    ∃ holder, (h.token p).holder = some holder ∧ h.Grants L p holder h' := by
  rw [tkm_GrantHolderToken] at hgrant
  dsimp only at hgrant
  split at hgrant
  · simp at hgrant
  · next v hholder =>
    obtain rfl := Option.some.inj hgrant
    refine ⟨.volume v, hholder, rfl, rfl, rfl, rfl, ?_, fun _ => rfl, ?_, ?_⟩
    · rintro ((f | w) | w)
      · rfl
      · by_cases hw : w = v <;> simp [Heap.shelf, Heap.setVolume, hw]
      · by_cases hw : w = v <;> simp [Heap.shelf, Heap.setVolume, hw]
    · rintro (f | w)
      · simp [Heap.granted, Heap.setVolume]
      · by_cases hw : w = v <;> simp [Heap.granted, Heap.setVolume, hw]
    · rintro (f | w)
      · simp [Heap.tokenGrants, Heap.setVolume]
      · by_cases hw : w = v <;> simp [Heap.tokenGrants, Heap.setVolume, Holder.vol, hw]
  · next f hholder =>
    obtain rfl := Option.some.inj hgrant
    refine ⟨.file f, hholder, rfl, rfl, rfl, rfl, ?_, ?_, ?_, ?_⟩
    · rintro ((g | w) | w)
      · by_cases hg : g = f <;> simp [Heap.shelf, Heap.setVolume, Heap.setFile, hg]
      · by_cases hw : w = L.vol f <;> simp [Heap.shelf, Heap.setVolume, Heap.setFile, hw]
      · by_cases hw : w = L.vol f <;> simp [Heap.shelf, Heap.setVolume, Heap.setFile, hw]
    · intro g
      by_cases hg : g = f <;> simp [Heap.setVolume, Heap.setFile, hg]
    · rintro (g | w)
      · by_cases hg : g = f <;> simp [Heap.granted, Heap.setVolume, Heap.setFile, hg]
      · by_cases hw : w = L.vol f <;> simp [Heap.granted, Heap.setVolume, Heap.setFile, hw]
    · rintro (g | w)
      · by_cases hg : g = f <;> simp [Heap.tokenGrants, Heap.setVolume, Heap.setFile, hg]
      · by_cases hw : w = L.vol f <;> simp [Heap.tokenGrants, Heap.setVolume, Heap.setFile, Holder.vol, hw]

/-- The heap `h'` after `p` was taken from the granted list of its holder. -/
structure Heap.Returns (h : Heap φ ν) (p : Ptr) (holder : Holder φ ν) (h' : Heap φ ν) : Prop where
  mem : p ∈ h.granted holder
  token : h'.token = h.token
  allocated : h'.allocated = h.allocated
  lastTokenId : h'.lastTokenId = h.lastTokenId
  freeTokens : h'.freeTokens = h.freeTokens
  shelf : ∀ s, h'.shelf s = h.shelf s
  host : ∀ f, (h'.file f).host = (h.file f).host
  granted : ∀ holder', h'.granted holder' = if holder' = holder then (h.granted holder).erase p else h.granted holder'
  tokenGrants : ∀ holder, h'.tokenGrants holder = h.tokenGrants holder

theorem tkm_ReturnHolderToken_spec (hreturn : tkm_ReturnHolderToken h p = some h') :
    ∃ holder, (h.token p).holder = some holder ∧ h.Returns p holder h' := by
  rw [tkm_ReturnHolderToken] at hreturn
  split at hreturn
  · simp at hreturn
  · next v hholder =>
    obtain ⟨hp, hreturn⟩ := Option.ite_none_right_eq_some.mp hreturn
    obtain rfl := Option.some.inj hreturn
    refine ⟨.volume v, hholder, hp, rfl, rfl, rfl, rfl, ?_, fun _ => rfl, ?_, ?_⟩
    · rintro ((f | w) | w)
      · rfl
      · by_cases hw : w = v <;> simp [Heap.shelf, Heap.setVolume, hw]
      · by_cases hw : w = v <;> simp [Heap.shelf, Heap.setVolume, hw]
    · rintro (f | w)
      · simp [Heap.granted, Heap.setVolume]
      · by_cases hw : w = v <;> simp [Heap.granted, Heap.setVolume, hw]
    · rintro (f | w)
      · simp [Heap.tokenGrants, Heap.setVolume]
      · by_cases hw : w = v <;> simp [Heap.tokenGrants, Heap.setVolume, hw]
  · next f hholder =>
    obtain ⟨hp, hreturn⟩ := Option.ite_none_right_eq_some.mp hreturn
    obtain rfl := Option.some.inj hreturn
    refine ⟨.file f, hholder, hp, rfl, rfl, rfl, rfl, ?_, ?_, ?_, ?_⟩
    · rintro ((g | w) | w)
      · by_cases hg : g = f <;> simp [Heap.shelf, Heap.setFile, hg]
      · rfl
      · rfl
    · intro g
      by_cases hg : g = f <;> simp [Heap.setFile, hg]
    · rintro (g | w)
      · by_cases hg : g = f <;> simp [Heap.granted, Heap.setFile, hg]
      · simp [Heap.granted, Heap.setFile]
    · rintro (g | w)
      · by_cases hg : g = f <;> simp [Heap.tokenGrants, Heap.setFile, hg]
      · simp [Heap.tokenGrants, Heap.setFile]

end dce.tkm
