import Dce.Tkm.Ownership

open lib Relation

namespace dce.tkm

variable {φ ν τ : Type} [DecidableEq φ] [DecidableEq ν] [DecidableEq τ] {L : Layout φ ν}

/-- A sequence of primitives of the kinds that are allowed. -/
abbrev Chain (L : Layout φ ν) (ok : Kind → Prop) : Heap φ ν × List Ptr → Heap φ ν × List Ptr → Prop :=
  ReflTransGen fun a b => ∃ k, ok k ∧ Prim L k a b

theorem Chain.sound {ok : Kind → Prop} {a b : Heap φ ν × List Ptr} (hchain : Chain L ok a b) {t : τ}
    {others : τ → List Ptr} (hs : Sound a.1 (Function.update others t a.2)) :
    Sound b.1 (Function.update others t b.2) := by
  induction hchain with
  | refl => exact hs
  | tail _ hprim ih =>
    obtain ⟨k, _, hprim⟩ := hprim
    exact hprim.sound ih

/-- From a sound heap the change from `a` to `b` is a sequence of primitives. -/
def Does (L : Layout φ ν) (ok : Kind → Prop) (t : τ) (others : τ → List Ptr) (a b : Heap φ ν × List Ptr) : Prop :=
  Sound a.1 (Function.update others t a.2) → Chain L ok a b

namespace Does

variable {ok : Kind → Prop} {t : τ} {others : τ → List Ptr} {a b c : Heap φ ν × List Ptr}

theorem refl : Does L ok t others a a := fun _ => .refl

theorem trans (hab : Does L ok t others a b) (hbc : Does L ok t others b c) : Does L ok t others a c := fun hs =>
  (hab hs).trans (hbc ((hab hs).sound hs))

theorem prim {k : Kind} (hk : ok k) (hprim : Prim L k a b) : Does L ok t others a b := fun _ => .single ⟨k, hk, hprim⟩

theorem of_sound (h : Sound a.1 (Function.update others t a.2) → Does L ok t others a b) : Does L ok t others a b :=
  fun hs => h hs hs

variable {h h' : Heap φ ν} {l : List Ptr}

theorem perm (hok : ok .plain) {l l' : List Ptr} (hperm : l.Perm l') : Does L ok t others (h, l) (h, l') :=
  prim hok (.perm h hperm)

theorem moreTokens (hok : ok .plain) (n : ℕ) : Does L ok t others (h, l) (tkm_MoreTokens h n, l) := by
  induction n generalizing h with
  | zero => exact refl
  | succ n ih => exact (prim hok (.alloc h l)).trans ih

theorem allocLoop (hok : ok .plain) {n : ℕ} {ret : List Ptr} :
    Does L ok t others (h, ret ++ l) ((allocLoop n h ret).2, (allocLoop n h ret).1 ++ l) := by
  induction n generalizing h ret with
  | zero => exact refl
  | succ n ih =>
    rw [tkm.allocLoop]
    cases htake : tkm_GetFreeToken h with
    | none => exact refl
    | some took =>
      obtain ⟨p, h'⟩ := took
      exact (prim hok (.take (ret ++ l) htake)).trans (@ih h' (p :: ret))

theorem allocNoSleep (hok : ok .plain) (n : ℕ) :
    Does L ok t others (h, l) ((tkm_AllocTokenNoSleep h n).2, (tkm_AllocTokenNoSleep h n).1 ++ l) :=
  @allocLoop _ _ _ _ _ _ _ _ _ _ _ _ hok n []

theorem freeTokens (hok : ok .plain) (pool : List Ptr) :
    Does L ok t others (h, pool ++ l) (tkm_FreeTokens h pool, l) := by
  induction pool generalizing h with
  | nil => exact refl
  | cons p pool ih => exact (prim hok (.put h p (pool ++ l))).trans ih

variable {holder : Holder φ ν} {p : Ptr} {q : ConflictQ}

theorem removeTypes (hok : ok .plain) (hp : p ∈ h.granted holder) {types : Types}
    (hremove : tkm_RemoveTypes L h p types = some h') : Does L ok t others (h, l) (h', l) := by
  rw [tkm_RemoveTypes] at hremove
  obtain ⟨h₁, hdrop, hrecycle⟩ := Option.bind_eq_some_iff.mp hremove
  have hdropped : Does L ok t others (h, l) (h₁, l) := prim hok (.drop l hp hdrop)
  split at hrecycle
  · next hempty =>
    obtain ⟨h₂, hreturn, rfl⟩ := Option.map_eq_some_iff.mp hrecycle
    exact hdropped.trans (prim hok (.recycle l hempty.1 hempty.2 hreturn))
  · obtain rfl := Option.some.inj hrecycle
    exact hdropped

theorem granted_of_recycle (hs : Sound h (Function.update others t l))
    (hrecycle : TKM_RECYCLE_TOKEN L h p = some h') : ∃ holder, p ∈ h.granted holder := by
  by_cases hheld : (h.token p).refcount = 0
  · rw [TKM_RECYCLE_TOKEN, tkm_RemoveTypes] at hrecycle
    obtain ⟨h₁, hdrop, hrecycle⟩ := Option.bind_eq_some_iff.mp hrecycle
    obtain ⟨hsame, htoken⟩ := dropTypes_spec hdrop
    have hempty : (h₁.token p).types = ∅ ∧ (h₁.token p).refcount = 0 := by
      simp [htoken, Token.without, hheld]
    rw [if_pos hempty] at hrecycle
    obtain ⟨h₂, hreturn, _⟩ := Option.map_eq_some_iff.mp hrecycle
    obtain ⟨holder, _, hreturns⟩ := tkm_ReturnHolderToken_spec hreturn
    exact ⟨holder, hsame.granted holder ▸ hreturns.mem⟩
  · exact hs.held p hheld

section

variable (hok : ok .plain)

include hok

theorem recycle (hrecycle : TKM_RECYCLE_TOKEN L h p = some h') : Does L ok t others (h, l) (h', l) :=
  of_sound fun hs =>
    have ⟨_, hp⟩ := granted_of_recycle hs hrecycle
    removeTypes hok hp hrecycle

theorem touch {tok : Token φ ν} (htouched : (h.token p).Touched tok) (htypes : tok.types = (h.token p).types)
    (hrefcount : tok.refcount ≠ 0 → (h.token p).refcount ≠ 0 ∨ ∃ holder, p ∈ h.granted holder)
    (hgranting : tok.granting = true → (h.token p).granting = true) :
    Does L ok t others (h, l) (h.setToken p tok, l) :=
  prim hok (.touch h l p htouched (fun _ => htypes) hrefcount hgranting)

theorem rele (hp : p ∈ h.granted holder) : Does L ok t others (h, l) (releToken h p, l) :=
  touch hok ⟨rfl, rfl, rfl, rfl⟩ rfl (fun _ => .inr ⟨holder, hp⟩) id

theorem hold (hp : p ∈ h.granted holder) : Does L ok t others (h, l) (TKM_HOLDTOKEN h p, l) :=
  touch hok ⟨rfl, rfl, rfl, rfl⟩ rfl (fun _ => .inr ⟨holder, hp⟩) id

theorem releTypes (hp : p ∈ h.granted holder) {types : Types}
    (hremove : tkm_RemoveTypes L (releToken h p) p types = some h') : Does L ok t others (h, l) (h', l) :=
  (rele hok hp).trans (removeTypes hok (by simpa [releToken] using hp) hremove)

theorem reletoken (hrele : TKM_RELETOKEN L h p = some h') : Does L ok t others (h, l) (h', l) :=
  of_sound fun hs => by
    rw [TKM_RELETOKEN] at hrele
    split at hrele
    · simp at hrele
    · next hheld =>
      obtain ⟨holder, hp⟩ := hs.held p hheld
      exact releTypes hok hp hrele

theorem releAndRecycle (hrele : TKM_RELE_AND_RECYCLE_TOKEN L h p = some h') : Does L ok t others (h, l) (h', l) :=
  of_sound fun hs => by
    rw [TKM_RELE_AND_RECYCLE_TOKEN] at hrele
    split at hrele
    · simp at hrele
    · next hheld =>
      obtain ⟨holder, hp⟩ := hs.held p hheld
      exact (rele hok hp).trans (recycle hok hrele)

theorem holdConflictQ (hq : ∀ elem ∈ q, ∀ p, elem.token = some p → ∃ holder, p ∈ h.granted holder) :
    Does L ok t others (h, l) (tkm.holdConflictQ h q, l) := by
  induction q generalizing h with
  | nil => exact refl
  | cons elem q ih =>
    rw [tkm.holdConflictQ]
    split
    · exact ih fun elem' helem => hq elem' (List.mem_cons_of_mem _ helem)
    · next p hp =>
      obtain ⟨holder, hmem⟩ := hq elem List.mem_cons_self p hp
      refine (hold hok hmem).trans (ih fun elem' helem p' hp' => ?_)
      obtain ⟨holder', hmem'⟩ := hq elem' (List.mem_cons_of_mem _ helem) p' hp'
      exact ⟨holder', by simpa [TKM_HOLDTOKEN] using hmem'⟩

theorem deleteConflictQ (hdelete : tkm_DeleteConflictQ L h q = some h') : Does L ok t others (h, l) (h', l) := by
  induction q generalizing h with
  | nil =>
    obtain rfl := Option.some.inj hdelete
    exact refl
  | cons elem q ih =>
    rw [tkm_DeleteConflictQ] at hdelete
    split at hdelete
    · exact ih hdelete
    · obtain ⟨h₁, hrele, hdelete⟩ := Option.bind_eq_some_iff.mp hdelete
      exact (reletoken hok hrele).trans (ih hdelete)

theorem cleanSlice {slice : Option Ptr} (hclean : tkm.cleanSlice L h slice = some h') : Does L ok t others (h, l) (h', l) := by
  cases slice with
  | none =>
    obtain rfl := Option.some.inj hclean
    exact refl
  | some p =>
    rw [tkm.cleanSlice] at hclean
    split at hclean
    · exact recycle hok hclean
    · obtain rfl := Option.some.inj hclean
      exact refl

theorem cleanConflictQ (hclean : tkm_CleanConflictQ L h q = some h') : Does L ok t others (h, l) (h', l) := by
  obtain ⟨h₁, hslices, hdelete⟩ := Option.bind_eq_some_iff.mp hclean
  suffices hall : ∀ {q : ConflictQ} {h : Heap φ ν}, cleanSlices L h q = some h₁ →
      Does L ok t others (h, l) (h₁, l) from (hall hslices).trans (deleteConflictQ hok hdelete)
  intro q
  induction q with
  | nil =>
    intro h hslices
    obtain rfl := Option.some.inj hslices
    exact refl
  | cons elem q ih =>
    intro h hslices
    rw [cleanSlices] at hslices
    split at hslices
    · exact ih hslices
    · obtain ⟨h₂, hlow, hslices⟩ := Option.bind_eq_some_iff.mp hslices
      obtain ⟨h₃, hhigh, hslices⟩ := Option.bind_eq_some_iff.mp hslices
      exact (cleanSlice hok hlow).trans ((cleanSlice hok hhigh).trans (ih hslices))

theorem dropSlice {slice : Option Ptr} (hdrop : tkm.dropSlice L h slice = some h') : Does L ok t others (h, l) (h', l) := by
  cases slice with
  | none =>
    obtain rfl := Option.some.inj hdrop
    exact refl
  | some p =>
    have hclear : Does L ok t others (h, l) (h.setToken p { h.token p with granting := false }, l) :=
      touch hok ⟨rfl, rfl, rfl, rfl⟩ rfl .inl (by simp)
    exact hclear.trans (recycle hok hdrop)

end

theorem grantSlices (hslice : ok .slice) {slices : List (Slice φ ν)}
    (hslices : ∀ s ∈ slices, s.2.id = (h.token s.1).id ∧ s.2.refcount = (h.token s.1).refcount ∧
      (h.token s.1).types ⊆ s.2.types ∧
        (ok .grant ∨ ∃ holder, s.2.holder = some holder ∧ ∃ q ∈ h.granted holder, s.2.SliceOf (h.token q)))
    (hgrant : tkm.grantSlices L h slices = some h') :
    Does L ok t others (h, slices.map Prod.fst ++ l) (h', l) := by
  induction slices generalizing h with
  | nil =>
    obtain rfl := Option.some.inj hgrant
    exact refl
  | cons s slices ih =>
    obtain ⟨p, tok⟩ := s
    obtain ⟨h₁, hfirst, hgrant⟩ := Option.bind_eq_some_iff.mp hgrant
    refine of_sound fun hs => ?_
    obtain ⟨hid, hrefcount, htypes, hof⟩ := hslices (p, tok) List.mem_cons_self
    obtain ⟨holder, _, hgrants⟩ := tkm_GrantHolderToken_spec hfirst
    have hlocal : p ∈ contents h (Function.update others t (p :: (slices.map Prod.fst ++ l))) (.thread t) :=
      Sound.mem_local List.mem_cons_self
    have hfresh : p ∉ slices.map Prod.fst := fun hp => by
      have hnodup := hs.apart.nodup (.thread t)
      simp only [contents, Function.update_self, List.map_cons, List.cons_append, List.nodup_cons] at hnodup
      exact hnodup.1 (List.mem_append_left _ hp)
    have htoken : ∀ q, q ≠ p → h₁.token q = h.token q := fun q hq => by
      rw [hgrants.token, Heap.setToken_token_of_ne _ _ hq]
    have hstep : Does L ok t others (h, p :: (slices.map Prod.fst ++ l)) (h₁, slices.map Prod.fst ++ l) := by
      rcases hof with hany | ⟨holder', hholder, q, hq, hsliceOf⟩
      · exact prim hany (.grant _ hid hrefcount htypes hfirst)
      · exact prim hslice (.slice _ hid hrefcount htypes hholder hq hsliceOf hfirst)
    refine hstep.trans (ih (fun s hmem => ?_) hgrant)
    have hne : s.1 ≠ p := fun h => hfresh (h ▸ List.mem_map_of_mem hmem)
    rw [htoken s.1 hne]
    obtain ⟨hid', hrefcount', htypes', hof'⟩ := hslices s (List.mem_cons_of_mem _ hmem)
    refine ⟨hid', hrefcount', htypes', hof'.imp_right ?_⟩
    rintro ⟨holder', hholder, q, hq, hsliceOf⟩
    have hqp : q ≠ p := fun h => hs.not_granted hlocal (fun _ => by simp) holder' (h ▸ hq)
    refine ⟨holder', hholder, q, ?_, by rwa [htoken q hqp]⟩
    rw [hgrants.granted]
    split
    · next h => exact List.mem_cons_of_mem _ (by simpa [h] using hq)
    · simpa using hq

end Does

end dce.tkm
