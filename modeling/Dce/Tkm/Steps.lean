import Dce.Tkm.Frame
import Dce.Tkm.Search

open lib

namespace dce.tkm

variable {φ ν τ : Type}

/-- The token of a request for a file is local until it is granted or queued. -/
def FileCaller.held (r : Request) : FileCaller φ → List Ptr
  | getFileToken _ => [r.tokenP]
  | getVolToken .. => []

def VolCaller.held (r : Request) : VolCaller φ ν → List Ptr
  | getFileToken .. => [r.tokenP]
  | getVolToken _ => []

def Caller.held (r : Request) : Caller φ ν → List Ptr
  | file c => c.held r
  | vol c => c.held r

def Revoker.held : Revoker φ ν → List Ptr
  | request r c => c.held r
  | gc => []

def Thread.pool : Thread φ ν → List Ptr
  | fileLoop _ _ pool => pool
  | alloc _ _ _ pool ret _ => ret ++ pool
  | _ => []

def Thread.held : Thread φ ν → List Ptr
  | fixFile r c => c.held r
  | fileLoop r c pool => pool ++ c.held r
  | alloc r c _ pool ret _ => ret ++ pool ++ c.held r
  | volLoop r c => c.held r
  | revoke revoker _ _ => revoker.held
  | revoked r c _ _ => c.held r
  | beingGranted r _ _ _ => [r.tokenP]
  | _ => []

def Thread.revokeList : Thread φ ν → List RevokeDesc
  | revoke _ _ (.describe _ revokeList) => revokeList
  | revoke _ _ (.doRevoke _ revokeList _ _) => revokeList
  | _ => []

def Thread.acceptances : Thread φ ν → List Acceptance
  | revoke _ _ (.doRevoke _ _ acceptances _) => acceptances
  | _ => []

/-- What a thread can rely on when it gets its locks again. -/
structure Thread.Known (th : Thread φ ν) (h : Heap φ ν) : Prop where
  pool : ∀ p ∈ th.pool, (h.token p).types = ∅
  named : ∀ d ∈ th.revokeList, h.Named d.tokenID
  columnA : ∀ d ∈ th.revokeList, ∀ c ∈ d.columnA, h.Offered c.1 c.2
  columnB : ∀ d ∈ th.revokeList, ∀ c ∈ d.columnB, h.Offered c.1 c.2
  offered : ∀ a ∈ th.acceptances, h.Offered a.tokenID a.offered
  accepted : ∀ a ∈ th.acceptances, a.accepted ⊆ a.offered

/-- A thread with nothing but its request. -/
structure Thread.Plain (th : Thread φ ν) : Prop where
  pool : th.pool = []
  revokeList : th.revokeList = []
  acceptances : th.acceptances = []

variable {q : ConflictQ} {c : FileCaller φ} {revoker : Revoker φ ν} {l : List Ptr} {holder : Holder φ ν} {p : Ptr}
  {pool : List Ptr} {action : Action φ ν} {mask : Types} {th : Thread φ ν} {n : ℕ} {v : ν}

theorem Thread.Plain.known (hplain : th.Plain) (h : Heap φ ν) : th.Known h := by
  obtain ⟨hpool, hrevoke, haccept⟩ := hplain
  constructor <;> simp [hpool, hrevoke, haccept]

/-- The structure `p` is asleep in `beingGranted` only if this is the file's count. -/
def VolCaller.current (h : Heap φ ν) : VolCaller φ ν → Prop
  | getFileToken f localFileCount _ => localFileCount = (h.file f).tokenGrants
  | getVolToken _ => True

variable [DecidableEq φ] [DecidableEq ν] [DecidableEq τ] {L : Layout φ ν}

/-- A step with the locals `l` before it is made of primitives. -/
structure Runs (L : Layout φ ν) (ok : Kind → Prop) (t : τ) (others : τ → List Ptr) (a : Heap φ ν × List Ptr)
    (res : Heap φ ν × Thread φ ν) : Prop where
  does : Does L ok t others a (res.1, res.2.held)
  plain : res.2.Plain

variable {ok : Kind → Prop} {t : τ} {others : τ → List Ptr} {h h' : Heap φ ν} {r : Request} {code : Code}
  {res : Heap φ ν × Thread φ ν}

theorem Runs.after {a b : Heap φ ν × List Ptr} (hdoes : Does L ok t others a b) (hruns : Runs L ok t others b res) :
    Runs L ok t others a res := ⟨hdoes.trans hruns.does, hruns.plain⟩

theorem requestFailed_runs (hplain : ok .plain) (hleak : r.flags = .doingAsyncGrant → ok .leak) :
    Runs L ok t others (h, [r.tokenP]) (requestFailed h r) := by
  rw [requestFailed]
  split
  · exact ⟨.prim hplain (.put h r.tokenP []), rfl, rfl, rfl⟩
  · next hflags => exact ⟨.prim (hleak hflags) (.forget h r.tokenP []), rfl, rfl, rfl⟩

theorem removeFromBeingGranted_does (hunbeing : ok (.unbeing p))
    (hremove : removeFromBeingGranted h v p = some h') : Does L ok t others (h, l) (h', p :: l) := by
  rw [removeFromBeingGranted] at hremove
  split at hremove
  · next hp =>
    obtain rfl := Option.some.inj hremove
    exact .prim hunbeing (.unbeing h v l hp)
  · simp at hremove

theorem getVolTokenFailed_runs (hplain : ok .plain) (hunbeing : ok (.unbeing r.tokenP))
    (hfail : getVolTokenFailed h r v = some res) : Runs L ok t others (h, []) res := by
  obtain ⟨h₁, hremove, rfl⟩ := Option.map_eq_some_iff.mp hfail
  exact ⟨(removeFromBeingGranted_does hunbeing hremove).trans (.prim hplain (.put h₁ r.tokenP [])), rfl, rfl, rfl⟩

theorem fixFileFailed_runs (hplain : ok .plain) (hunbeing : ok (.unbeing r.tokenP))
    (hleak : r.flags = .doingAsyncGrant → code ≠ .TKM_ERROR_TOKENCONFLICT → ok .leak)
    (hfail : fixFileFailed L h r c code = some res) : Runs L ok t others (h, c.held r) res := by
  cases c with
  | getFileToken f =>
    rw [fixFileFailed] at hfail
    split at hfail
    · obtain rfl := Option.some.inj hfail
      exact ⟨.prim hplain (.shelve h (.queued (.file f)) r.tokenP []), rfl, rfl, rfl⟩
    · next hqueue =>
      obtain rfl := Option.some.inj hfail
      refine requestFailed_runs hplain fun hflags => hleak hflags fun hcode => hqueue ⟨?_, hcode⟩
      simp [hflags, Flags.queueRequest]
  | getVolToken f rest n => exact getVolTokenFailed_runs hplain hunbeing hfail

theorem fixVolFailed_runs {c : VolCaller φ ν} (hplain : ok .plain) (hunbeing : ok (.unbeing r.tokenP))
    (hleak : r.flags = .doingAsyncGrant → code ≠ .TKM_ERROR_TOKENCONFLICT → c.current h → ok .leak)
    (hfail : fixVolFailed L h r c code = some res) : Runs L ok t others (h, c.held r) res := by
  cases c with
  | getFileToken f n mask =>
    rw [fixVolFailed] at hfail
    split at hfail
    · obtain rfl := Option.some.inj hfail
      exact ⟨.refl, rfl, rfl, rfl⟩
    · next hcount =>
      split at hfail
      · obtain rfl := Option.some.inj hfail
        exact ⟨.prim hplain (.shelve h (.queued (.volume (L.vol f))) r.tokenP []), rfl, rfl, rfl⟩
      · next hqueue =>
        obtain rfl := Option.some.inj hfail
        refine requestFailed_runs hplain fun hflags => hleak hflags (fun hcode => hqueue ⟨?_, hcode⟩) (not_not.mp hcount)
        simp [hflags, Flags.queueRequest]
  | getVolToken v => exact getVolTokenFailed_runs hplain hunbeing hfail

theorem tkm_GrantHolderToken_granting {tok : Token φ ν}
    (hgrant : tkm_GrantHolderToken L (h.setToken p tok) p = some h') :
    tkm_GrantHolderToken L (h.setToken p { tok with granting := true }) p =
      some (h'.setToken p { h'.token p with granting := true }) := by
  have htoken : h'.token p = tok := by
    obtain ⟨_, _, hgrants⟩ := tkm_GrantHolderToken_spec hgrant
    rw [hgrants.token, Heap.setToken_token]
  rw [htoken]
  rw [tkm_GrantHolderToken] at hgrant ⊢
  simp only [Heap.setToken_token] at hgrant ⊢
  split at hgrant
  · simp at hgrant
  · next hholder =>
    obtain rfl := Option.some.inj hgrant
    simp [hholder, Heap.setToken, Heap.setVolume]
  · next hholder =>
    obtain rfl := Option.some.inj hgrant
    simp [hholder, Heap.setToken, Heap.setVolume, Heap.setFile]

omit [DecidableEq φ] [DecidableEq ν] in
theorem grantedTypes_wider (flags : Flags) (newToken : Token φ ν) (otherHostMask : Types) :
    newToken.types ⊆ grantedTypes flags newToken otherHostMask := by
  rw [grantedTypes]
  split
  · exact Finset.subset_union_left
  · exact Finset.Subset.refl _

theorem grantFileToken_runs {f : φ} (hgrants : ok .grant)
    (hgrant : grantFileToken L h r f mask = some res) : Runs L ok t others (h, [r.tokenP]) res := by
  obtain ⟨h₂, htoken, rfl⟩ := Option.map_eq_some_iff.mp hgrant
  have hwider := grantedTypes_wider r.flags (h.token r.tokenP) mask
  refine .after (.prim hgrants (.host h [r.tokenP] f (grantedHost (h.file f) (h.token r.tokenP).host mask))) ?_
  split
  · refine ⟨.prim hgrants (.grant [] ?_ ?_ ?_ htoken), rfl, rfl, rfl⟩
    exacts [rfl, rfl, hwider]
  · refine ⟨.prim hgrants (.grant [] ?_ ?_ ?_ (tkm_GrantHolderToken_granting htoken)), rfl, rfl, rfl⟩
    exacts [rfl, rfl, hwider]

theorem grantVolToken_runs (hunbeing : ok (.unbeing r.tokenP)) (hgrants : ok .grant)
    (hgrant : grantVolToken L h r v = some res) : Runs L ok t others (h, []) res := by
  obtain ⟨h₁, hremove, hrest⟩ := Option.bind_eq_some_iff.mp hgrant
  obtain ⟨h₂, htoken, rfl⟩ := Option.map_eq_some_iff.mp hrest
  rw [← Heap.setToken_self h₁ r.tokenP] at htoken
  exact ⟨(removeFromBeingGranted_does hunbeing hremove).trans
    (.prim hgrants (.grant [] rfl rfl (Finset.Subset.refl _) htoken)), rfl, rfl, rfl⟩

theorem volFixed_runs {c : VolCaller φ ν} (hunbeing : ok (.unbeing r.tokenP)) (hgrants : ok .grant)
    (hfixed : volFixed L h r c mask = some res) : Runs L ok t others (h, c.held r) res := by
  cases c with
  | getFileToken f n fileMask =>
    rw [volFixed] at hfixed
    split at hfixed
    · obtain rfl := Option.some.inj hfixed
      exact ⟨.refl, rfl, rfl, rfl⟩
    · exact grantFileToken_runs hgrants hfixed
  | getVolToken v =>
    rw [volFixed] at hfixed
    split at hfixed
    · exact grantVolToken_runs hunbeing hgrants hfixed
    · split at hfixed <;> obtain rfl := Option.some.inj hfixed <;> exact ⟨.refl, rfl, rfl, rfl⟩

def ConflictQ.Granted (q : ConflictQ) (h : Heap φ ν) : Prop :=
  ∀ elem ∈ q, ∀ p, elem.token = some p → ∃ holder, p ∈ h.granted holder

theorem revokeVolConflicts_runs {c : VolCaller φ ν} (hplain : ok .plain)
    (hunbeing : ok (.unbeing r.tokenP)) (hq : q.Granted h) (hrevoke : revokeVolConflicts L h r c q = some res) :
    Runs L ok t others (h, c.held r) res := by
  rw [revokeVolConflicts] at hrevoke
  refine .after (.holdConflictQ hplain hq) ?_
  split at hrevoke
  · next hflags =>
    obtain ⟨h₁, hdelete, hfail⟩ := Option.bind_eq_some_iff.mp hrevoke
    exact .after (.deleteConflictQ hplain hdelete)
      (fixVolFailed_runs hplain hunbeing (fun _ hcode _ => absurd rfl hcode) hfail)
  · obtain rfl := Option.some.inj hrevoke
    exact ⟨.refl, rfl, rfl, rfl⟩

omit [DecidableEq φ] [DecidableEq ν] in
theorem tkm_ConflictingTokens_granted {issued : TokenList} (hissued : issued.list = h.granted holder)
    {requested : Token φ ν} : ConflictQ.Granted (tkm_ConflictingTokens h issued requested).1 h := fun elem helem p hp => by
  obtain ⟨p', hp', hfound⟩ := tkm_ConflictingTokens_found elem helem
  obtain rfl := Option.some.inj (hfound.token.symm.trans hp)
  exact ⟨holder, hissued ▸ hp'⟩

theorem tkm_FixVolConflicts_runs {c : VolCaller φ ν} (hplain : ok .plain) (hunbeing : ok (.unbeing r.tokenP))
    (hgrants : ok .grant) (hfix : tkm_FixVolConflicts L h r c = some res) :
    Runs L ok t others (h, c.held r) res := by
  rw [tkm_FixVolConflicts] at hfix
  split at hfix
  · exact volFixed_runs hunbeing hgrants hfix
  · exact revokeVolConflicts_runs hplain hunbeing (tkm_ConflictingTokens_granted (show _ = h.granted (.volume (c.volume L)) from rfl)) hfix

theorem getFileTokenVol_runs {f : φ} (hplain : ok .plain) (hunbeing : ok (.unbeing r.tokenP))
    (hgrants : ok .grant) (hget : getFileTokenVol L h r f n mask = some res) :
    Runs L ok t others (h, [r.tokenP]) res := by
  rw [getFileTokenVol] at hget
  split at hget
  · split at hget
    · next hflags =>
      obtain rfl := Option.some.inj hget
      exact requestFailed_runs hplain fun hasync => by simp [hasync, Flags.expectNoConfl] at hflags
    · obtain rfl := Option.some.inj hget
      exact ⟨.refl, rfl, rfl, rfl⟩
  · exact tkm_FixVolConflicts_runs hplain hunbeing hgrants hget

theorem fileFixed_runs (hplain : ok .plain) (hunbeing : ok (.unbeing r.tokenP))
    (hgrants : ok .grant) (hfixed : fileFixed L h r c mask = some res) : Runs L ok t others (h, c.held r) res := by
  rcases c with f | ⟨f, _ | ⟨g, rest⟩, n⟩
  · exact getFileTokenVol_runs hplain hunbeing hgrants hfixed
  · obtain rfl := Option.some.inj hfixed
    exact ⟨.refl, rfl, rfl, rfl⟩
  · obtain rfl := Option.some.inj hfixed
    exact ⟨.refl, rfl, rfl, rfl⟩

/-! The tokens for the slices -/

def Heap.Shrinks (h h' : Heap φ ν) : Prop := ∀ p, (h'.token p).types ⊆ (h.token p).types

omit [DecidableEq φ] [DecidableEq ν] in
theorem Heap.Shrinks.trans {h₁ : Heap φ ν} (hfirst : h.Shrinks h₁) (hsecond : h₁.Shrinks h') : h.Shrinks h' := fun p =>
  (hsecond p).trans (hfirst p)

omit [DecidableEq φ] [DecidableEq ν] in
theorem Heap.Shrinks.blank (hshrinks : h.Shrinks h') (hp : (h.token p).types = ∅) :
    (h'.token p).types = ∅ := Finset.subset_empty.mp (hp ▸ hshrinks p)

omit [DecidableEq φ] [DecidableEq ν] in
theorem Heap.Shrinks.setToken {tok : Token φ ν} (htypes : tok.types ⊆ (h.token p).types) :
    h.Shrinks (h.setToken p tok) := fun q => by
  by_cases hq : q = p
  · subst hq
    simpa using htypes
  · rw [Heap.setToken_token_of_ne _ _ hq]

theorem tkm_RemoveTypes_shrinks {types : Types} (hremove : tkm_RemoveTypes L h p types = some h') :
    h.Shrinks h' := by
  obtain ⟨h₁, hdrop, hrest⟩ := Option.bind_eq_some_iff.mp hremove
  obtain ⟨_, htoken⟩ := dropTypes_spec hdrop
  have hdropped : h.Shrinks h₁ := fun q => by
    rw [htoken]
    exact Heap.Shrinks.setToken Finset.sdiff_subset q
  split at hrest
  · obtain ⟨h₂, hreturn, rfl⟩ := Option.map_eq_some_iff.mp hrest
    obtain ⟨_, _, hreturns⟩ := tkm_ReturnHolderToken_spec hreturn
    have hput : h₂.Shrinks (h₂.setToken p { h₂.token p with id := 0 }) := .setToken (Finset.Subset.refl _)
    refine hdropped.trans fun q => ?_
    rw [← hreturns.token]
    exact hput q
  · obtain rfl := Option.some.inj hrest
    exact hdropped

theorem TKM_RELETOKEN_shrinks (hrele : TKM_RELETOKEN L h p = some h') : h.Shrinks h' := by
  rw [TKM_RELETOKEN] at hrele
  split at hrele
  · simp at hrele
  · have hreleased : h.Shrinks (releToken h p) := .setToken (Finset.Subset.refl _)
    exact hreleased.trans (tkm_RemoveTypes_shrinks hrele)

theorem tkm_DeleteConflictQ_shrinks (hdelete : tkm_DeleteConflictQ L h q = some h') :
    h.Shrinks h' := by
  induction q generalizing h with
  | nil =>
    obtain rfl := Option.some.inj hdelete
    exact fun _ => Finset.Subset.refl _
  | cons elem q ih =>
    rw [tkm_DeleteConflictQ] at hdelete
    split at hdelete
    · exact ih hdelete
    · obtain ⟨h₁, hrele, hdelete⟩ := Option.bind_eq_some_iff.mp hdelete
      exact (TKM_RELETOKEN_shrinks hrele).trans (ih hdelete)

omit [DecidableEq φ] [DecidableEq ν] in
theorem holdConflictQ_spec (q : ConflictQ) : (∀ p, (h.token p).Kept ((holdConflictQ h q).token p)) ∧
    (∀ holder, (holdConflictQ h q).granted holder = h.granted holder) ∧
      (holdConflictQ h q).freeTokens = h.freeTokens := by
  induction q generalizing h with
  | nil => exact ⟨fun _ => .refl, fun _ => rfl, rfl⟩
  | cons elem q ih =>
    rw [holdConflictQ]
    split
    · exact ih
    · next p _ =>
      obtain ⟨hkept, hgranted, hfree⟩ := ih (h := TKM_HOLDTOKEN h p)
      refine ⟨fun q => ?_, fun holder => (hgranted holder).trans (by simp [TKM_HOLDTOKEN]), hfree⟩
      refine Token.Kept.trans ?_ (hkept q)
      by_cases hqp : q = p
      · subst hqp
        simp only [TKM_HOLDTOKEN, Heap.setToken_token]
        exact ⟨⟨rfl, rfl, rfl, rfl⟩, rfl⟩
      · rw [TKM_HOLDTOKEN, Heap.setToken_token_of_ne _ _ hqp]
        exact .refl

omit [DecidableEq φ] [DecidableEq ν] in
theorem allocLoop_spec {ret : List Ptr} :
    (∀ p, p ∉ h.freeTokens → (allocLoop n h ret).2.token p = h.token p) ∧
      (∀ holder, (allocLoop n h ret).2.granted holder = h.granted holder) ∧
        h.Shrinks (allocLoop n h ret).2 ∧
          ((∀ p ∈ ret, (h.token p).types = ∅) → ∀ p ∈ (allocLoop n h ret).1, ((allocLoop n h ret).2.token p).types = ∅) := by
  induction n generalizing h ret with
  | zero => exact ⟨fun _ _ => rfl, fun _ => rfl, fun _ => Finset.Subset.refl _, id⟩
  | succ n ih =>
    rw [allocLoop]
    cases htake : tkm_GetFreeToken h with
    | none => exact ⟨fun _ _ => rfl, fun _ => rfl, fun _ => Finset.Subset.refl _, id⟩
    | some took =>
      obtain ⟨p, h₁⟩ := took
      obtain ⟨rest, hfree, rfl⟩ := tkm_GetFreeToken_spec htake
      set tok : Token φ ν := Token.blank (h.lastTokenId + 1)
      set h₁ : Heap φ ν := { h.setToken p tok with freeTokens := rest, lastTokenId := h.lastTokenId + 1 }
      obtain ⟨htoken, hgranted, hshrinks, hblank⟩ := ih (h := h₁)
      have hfirst : h.Shrinks h₁ := Heap.Shrinks.setToken (h := h) (p := p) (Finset.empty_subset _)
      refine ⟨fun q hq => ?_, fun holder => (hgranted holder).trans (by cases holder <;> rfl), hfirst.trans hshrinks,
        fun hret => hblank fun q hq => ?_⟩
      · rw [hfree, List.mem_cons, not_or] at hq
        exact (htoken q hq.2).trans (Heap.setToken_token_of_ne _ _ hq.1)
      · rcases List.mem_cons.mp hq with rfl | hq
        · simp [h₁, Heap.setToken, tok, Token.blank]
        · exact hfirst.blank (hret q hq)

omit [DecidableEq φ] [DecidableEq ν] in
theorem tkm_FreeTokens_spec (pool : List Ptr) : (∀ p, p ∉ pool → (tkm_FreeTokens h pool).token p = h.token p) ∧
    ∀ holder, (tkm_FreeTokens h pool).granted holder = h.granted holder := by
  induction pool generalizing h with
  | nil => exact ⟨fun _ _ => rfl, fun _ => rfl⟩
  | cons p pool ih =>
    obtain ⟨htoken, hgranted⟩ := ih (h := tkm_PutTokenInFreeList h p)
    refine ⟨fun q hq => ?_, fun holder => (hgranted holder).trans (by cases holder <;> rfl)⟩
    rw [List.mem_cons, not_or] at hq
    exact (htoken q hq.2).trans (Heap.setToken_token_of_ne _ _ hq.1)

theorem sliceConflicts_runs (hplain : ok .plain)
    (hslice : ok .slice) (hblank : ∀ p ∈ pool, (h.token p).types = ∅)
    (hq : ok .grant ∨ ∀ elem ∈ q, ∀ p, elem.token = some p →
      ∃ holder, p ∈ h.granted holder ∧ elem.grant ⊆ (h.token p).types)
    (hslices : sliceConflicts L h r c q pool = some res) : Runs L ok t others (h, pool ++ c.held r) res := by
  rw [sliceConflicts] at hslices
  split at hslices
  · obtain ⟨⟨q', slices, pool'⟩, hmake, hgrant⟩ := Option.bind_eq_some_iff.mp hslices
    obtain ⟨h₁, hgrants, rfl⟩ := Option.map_eq_some_iff.mp hgrant
    obtain ⟨hperm, _, hmade⟩ := makeSlices_spec hmake
    rw [List.map_nil, List.nil_append] at hperm
    refine ⟨.of_sound fun hs => ?_, rfl, rfl, rfl⟩
    have hnodup : (slices.map Prod.fst ++ pool').Nodup := by
      have hlocals := hs.apart.nodup (.thread t)
      simp only [contents, Function.update_self] at hlocals
      exact hperm.nodup_iff.mpr (List.Nodup.of_append_left hlocals)
    have hfresh : ∀ s ∈ slices, s.1 ∉ pool' := fun s hs hp =>
      List.disjoint_of_nodup_append hnodup (List.mem_map_of_mem hs) hp
    have hlocal : ∀ p ∈ pool', ∀ holder, p ∉ h.granted holder := fun p hp =>
      hs.not_granted (Sound.mem_local (List.mem_append_left _ (hperm.mem_iff.mp (List.mem_append_right _ hp))))
        fun _ => by simp
    obtain ⟨htoken, hgranted⟩ := tkm_FreeTokens_spec (h := h) pool'
    have hlist : (pool ++ c.held r).Perm (pool' ++ (slices.map Prod.fst ++ c.held r)) := by
      rw [← List.append_assoc]
      exact (hperm.symm.trans List.perm_append_comm).append_right _
    refine (Does.perm hplain hlist).trans ((Does.freeTokens hplain pool').trans (Does.grantSlices hslice ?_ hgrants))
    intro s hs'
    rcases hmade s hs' with hs' | ⟨hpool, elem, helem, p, hp, hgrant', hmade⟩
    · simp at hs'
    · rw [htoken s.1 (hfresh s hs')]
      refine ⟨hmade.id, hmade.refcount, by simp [hblank s.1 hpool], hq.imp_right fun hq => ?_⟩
      obtain ⟨holder, hmem, hsub⟩ := hq elem helem p hp
      refine ⟨holder, hmade.holder.trans (hs.holder holder p hmem), p, hgranted holder ▸ hmem, ?_⟩
      rw [htoken p fun hp => hlocal p hp holder hmem]
      exact ⟨hmade.host, hmade.types ▸ hsub, hmade.range⟩
  · obtain rfl := Option.some.inj hslices
    exact ⟨.freeTokens hplain pool, rfl, rfl, rfl⟩

/-- A step that is made of primitives, after which the thread knows what it relies on. -/
structure Goes (L : Layout φ ν) (ok : Kind → Prop) (t : τ) (others : τ → List Ptr) (a : Heap φ ν × List Ptr)
    (res : Heap φ ν × Thread φ ν) : Prop where
  does : Does L ok t others a (res.1, res.2.held)
  known : Sound a.1 (Function.update others t a.2) → res.2.Known res.1

theorem Runs.goes {a : Heap φ ν × List Ptr} (hruns : Runs L ok t others a res) : Goes L ok t others a res :=
  ⟨hruns.does, fun _ => hruns.plain.known res.1⟩

theorem Does.forget (pool : List Ptr) (hleak : pool ≠ [] → ok .leak) :
    Does L ok t others (h, pool ++ l) (h, l) := by
  induction pool with
  | nil => exact .refl
  | cons p pool ih =>
    exact (Does.prim (hleak (by simp)) (.forget h p (pool ++ l))).trans (ih fun _ => hleak (by simp))

theorem addToPool_perm (pool more : List Ptr) : (more ++ pool).Perm (addToPool pool more) := by
  rw [addToPool]
  split
  · next hpool => simp [hpool]
  · exact (List.reverse_perm more).symm.append_right pool

omit [DecidableEq φ] [DecidableEq ν] in
theorem allocated_blank (hblank : ∀ p ∈ pool, (h.token p).types = ∅) :
    ∀ p ∈ addToPool pool (tkm_AllocTokenNoSleep h n).1, ((tkm_AllocTokenNoSleep h n).2.token p).types = ∅ := by
  obtain ⟨_, _, hshrinks, hnew⟩ := allocLoop_spec (h := h) (n := n)
  intro p hp
  rcases List.mem_append.mp ((addToPool_perm _ _).mem_iff.mpr hp) with hp | hp
  · exact hnew (by simp) p hp
  · exact hshrinks.blank (hblank p hp)

section

variable (hplain : ok .plain)

include hplain

theorem revokeFileConflicts_goes (hslice : ok .slice) (hunbeing : ok (.unbeing r.tokenP))
    (hleak : pool ≠ [] → r.flags.expectNoConfl = true → ok .leak) (hblank : ∀ p ∈ pool, (h.token p).types = ∅)
    {requested : Token φ ν} (hq : ∀ elem ∈ q, ∃ p ∈ (h.file c.file).granted.list, elem.Found h requested p)
    (hrevoke : revokeFileConflicts L h r c q pool = some res) : Goes L ok t others (h, pool ++ c.held r) res := by
  have hgranted : q.Granted h := fun elem helem p hp => by
    obtain ⟨p', hp', hfound⟩ := hq elem helem
    obtain rfl := Option.some.inj (hfound.token.symm.trans hp)
    exact ⟨.file c.file, hp'⟩
  rw [revokeFileConflicts] at hrevoke
  have hheld : Does L ok t others (h, pool ++ c.held r) (holdConflictQ h q, pool ++ c.held r) :=
    .holdConflictQ hplain hgranted
  split at hrevoke
  · next hflags =>
    obtain ⟨h₁, hdelete, hfail⟩ := Option.bind_eq_some_iff.mp hrevoke
    have hforget : Does L ok t others (h₁, pool ++ c.held r) (h₁, c.held r) :=
      .forget pool fun hpool => hleak hpool hflags
    have hruns : Runs L ok t others (h₁, c.held r) res :=
      fixFileFailed_runs hplain hunbeing (fun _ hcode => absurd rfl hcode) hfail
    exact (hruns.after ((hheld.trans (.deleteConflictQ hplain hdelete)).trans hforget)).goes
  · obtain ⟨hkept, hlists, hfree⟩ := holdConflictQ_spec (h := h) q
    set h₁ := holdConflictQ h q
    set more := tkm_AllocTokenNoSleep h₁ (2 * q.sliceNdiceNeeded)
    have hmore : Does L ok t others (h, pool ++ c.held r) (more.2, addToPool pool more.1 ++ c.held r) := by
      refine (hheld.trans (.allocNoSleep hplain _)).trans (.perm hplain ?_)
      rw [← List.append_assoc]
      exact (addToPool_perm pool more.1).append_right _
    have hpool : ∀ p ∈ addToPool pool more.1, (more.2.token p).types = ∅ :=
      allocated_blank fun p hp => (hkept p).types.trans (hblank p hp)
    dsimp only at hrevoke
    split at hrevoke
    · obtain rfl := Option.some.inj hrevoke
      exact ⟨by simpa [Thread.held] using hmore, fun _ => ⟨by simpa [Thread.pool] using hpool, nofun, nofun, nofun,
        nofun, nofun⟩⟩
    · refine Runs.goes ⟨.of_sound fun hs => ?_, ?_⟩
      · have hs₁ : Sound h₁ (Function.update others t (pool ++ c.held r)) := (hheld hs).sound hs
        refine hmore.trans (sliceConflicts_runs hplain hslice hpool (.inr fun elem helem p hp => ?_) hrevoke).does
        obtain ⟨p', hp', hfound⟩ := hq elem helem
        obtain rfl := Option.some.inj (hfound.token.symm.trans hp)
        have hp₁ : p' ∈ h₁.granted (.file c.file) := (hlists (.file c.file)).symm ▸ hp'
        have hnot : p' ∉ h₁.freeTokens := fun hfree =>
          hs₁.not_granted (x := .free) hfree (by simp) (.file c.file) hp₁
        obtain ⟨htoken, hlists', _⟩ := allocLoop_spec (h := h₁) (n := 2 * q.sliceNdiceNeeded)
        refine ⟨.file c.file, (hlists' (.file c.file)).symm ▸ hp₁, ?_⟩
        rw [show more.2.token p' = h₁.token p' from htoken p' hnot, (hkept p').types]
        exact hfound.grant
      · have hruns : Runs L (fun _ => True) t others (more.2, addToPool pool more.1 ++ c.held r) res :=
          sliceConflicts_runs trivial trivial hpool (.inl trivial) hrevoke
        exact hruns.plain

theorem fileConflictLoop_goes (hslice : ok .slice) (hunbeing : ok (.unbeing r.tokenP)) (hgrants : ok .grant)
    (hleak : pool ≠ [] → (tkm_ConflictingTokens h (h.file c.file).granted (h.token r.tokenP)).1 = [] ∨
      r.flags.expectNoConfl = true → ok .leak)
    (hblank : ∀ p ∈ pool, (h.token p).types = ∅) (hloop : fileConflictLoop L h r c pool = some res) :
    Goes L ok t others (h, pool ++ c.held r) res := by
  rw [fileConflictLoop] at hloop
  split at hloop
  · next hnil =>
    have hruns : Runs L ok t others (h, c.held r) res := fileFixed_runs hplain hunbeing hgrants hloop
    exact (hruns.after (.forget pool fun hpool => hleak hpool (.inl hnil))).goes
  · exact revokeFileConflicts_goes hplain hslice hunbeing (fun hpool hflags => hleak hpool (.inr hflags)) hblank
      tkm_ConflictingTokens_found hloop

theorem tkm_FixFileConflicts_goes (hslice : ok .slice)
    (hunbeing : ok (.unbeing r.tokenP)) (hgrants : ok .grant) (hfix : tkm_FixFileConflicts L h r c = some res) :
    Goes L ok t others (h, c.held r) res := by
  rw [tkm_FixFileConflicts] at hfix
  split at hfix
  · exact (fileFixed_runs hplain hunbeing hgrants hfix).goes
  · exact fileConflictLoop_goes hplain hslice hunbeing hgrants (fun hpool => absurd rfl hpool) (by simp) hfix

theorem allocated_goes {pool ret : List Ptr} (hslice : ok .slice)
    (hstale : pool = [] → ok .grant) (hblank : ∀ p ∈ ret ++ pool, (h.token p).types = ∅)
    (halloc : allocated L h r c q pool ret = some res) : Goes L ok t others (h, ret ++ pool ++ c.held r) res := by
  rw [allocated] at halloc
  split at halloc
  · next hpool =>
    subst hpool
    rw [List.append_nil] at hblank ⊢
    exact (sliceConflicts_runs hplain hslice hblank (.inl (hstale rfl)) halloc).goes
  · obtain ⟨h₁, hdelete, rfl⟩ := Option.map_eq_some_iff.mp halloc
    have hperm : (ret ++ pool ++ c.held r).Perm (ret.reverse ++ pool ++ c.held r) :=
      ((List.reverse_perm ret).symm.append_right pool).append_right _
    refine ⟨(Does.deleteConflictQ hplain hdelete).trans (.perm hplain hperm), fun _ => ⟨fun p hp => ?_, nofun, nofun,
      nofun, nofun, nofun⟩⟩
    refine (tkm_DeleteConflictQ_shrinks hdelete).blank (hblank p ?_)
    simpa [Thread.pool] using hp

theorem fileRevoked_runs (hunbeing : ok (.unbeing r.tokenP))
    (hleak : r.flags = .doingAsyncGrant → code ≠ .TKM_SUCCESS → code ≠ .TKM_ERROR_TOKENCONFLICT → ok .leak)
    (hrevoked : fileRevoked L h r c q code = some res) : Runs L ok t others (h, c.held r) res := by
  rw [fileRevoked] at hrevoked
  split at hrevoked
  · split at hrevoked
    · obtain ⟨h₁, hdelete, rfl⟩ := Option.map_eq_some_iff.mp hrevoked
      exact ⟨.deleteConflictQ hplain hdelete, rfl, rfl, rfl⟩
    · simp at hrevoked
  · next hcode =>
    split at hrevoked
    · obtain ⟨h₁, hclean, rfl⟩ := Option.map_eq_some_iff.mp hrevoked
      exact ⟨.cleanConflictQ hplain hclean, rfl, rfl, rfl⟩
    · obtain ⟨h₁, hclean, hfail⟩ := Option.bind_eq_some_iff.mp hrevoked
      exact .after (.cleanConflictQ hplain hclean)
        (fixFileFailed_runs hplain hunbeing (fun hflags => hleak hflags hcode) hfail)

end

omit [DecidableEq φ] [DecidableEq ν] in
theorem VolCaller.current_congr {c : VolCaller φ ν}
    (hgrants : ∀ holder, h'.tokenGrants holder = h.tokenGrants holder) : c.current h' ↔ c.current h := by
  cases c with
  | getFileToken f n mask =>
    rw [current, current, show (h'.file f).tokenGrants = (h.file f).tokenGrants from hgrants (.file f)]
  | getVolToken v => exact Iff.rfl

theorem volRevoked_runs {c : VolCaller φ ν} (hplain : ok .plain) (hunbeing : ok (.unbeing r.tokenP))
    (hleak : r.flags = .doingAsyncGrant → code ≠ .TKM_SUCCESS → code ≠ .TKM_ERROR_TOKENCONFLICT → c.current h → ok .leak)
    (hrevoked : volRevoked L h r c q code = some res) : Runs L ok t others (h, c.held r) res := by
  have hagain : (tkm_DeleteConflictQ L h q).map (fun h => (h, Thread.volLoop r c)) = some res →
      Runs L ok t others (h, c.held r) res := fun hsome => by
    obtain ⟨h₁, hdelete, rfl⟩ := Option.map_eq_some_iff.mp hsome
    exact ⟨.deleteConflictQ hplain hdelete, rfl, rfl, rfl⟩
  have hfailed : code ≠ .TKM_SUCCESS → (tkm_DeleteConflictQ L h q).bind (fun h => fixVolFailed L h r c code) = some res →
      Runs L ok t others (h, c.held r) res := fun hcode hsome => by
    obtain ⟨h₁, hdelete, hfail⟩ := Option.bind_eq_some_iff.mp hsome
    have hany : Runs L (fun _ => True) t others (h₁, c.held r) res :=
      fixVolFailed_runs trivial trivial (fun _ _ _ => trivial) hfail
    refine ⟨.of_sound fun hs => ?_, hany.plain⟩
    have hchain : Chain L (· = .plain) (h, c.held r) (h₁, c.held r) := Does.deleteConflictQ rfl hdelete hs
    have hcurrent := VolCaller.current_congr (c := c) (hchain.tokenGrants (by simp) (by simp))
    exact (Does.deleteConflictQ hplain hdelete).trans (fixVolFailed_runs hplain hunbeing
      (fun hflags hconflict hnow => hleak hflags hcode hconflict (hcurrent.mp hnow)) hfail).does
  unfold volRevoked at hrevoked
  dsimp only at hrevoked
  split at hrevoked
  · exact hagain hrevoked
  · next hcode =>
    split at hrevoked
    · split at hrevoked
      · obtain ⟨refused, _, hrest⟩ := Option.bind_eq_some_iff.mp hrevoked
        split at hrest
        · exact hfailed hcode hrest
        · exact hagain hrest
      · exact hfailed hcode hrevoked
    · exact hfailed hcode hrevoked

/-! `tkm_ParallelRevoke` -/

theorem preProcessElem_does {q q' : ConflictQ} {elem : ConflictElem}
    {expired recent : Bool} {pre : PreProcessed} (hplain : ok .plain)
    (hpre : preProcessElem L h revoker q elem p expired recent = some (h', q', pre)) :
    Does L ok t others (h, l) (h', l) := by
  have hrelease : (TKM_RELETOKEN L h p).map (fun h => (h, (tkm_RemoveFromConflictQ q p).1, PreProcessed.next)) =
      some (h', q', pre) → Does L ok t others (h, l) (h', l) := fun hsome => by
    obtain ⟨h₁, hrele, heq⟩ := Option.map_eq_some_iff.mp hsome
    obtain ⟨rfl, _⟩ := Prod.mk.inj heq
    exact .reletoken hplain hrele
  have hstay : ∀ {q : ConflictQ} {pre' : PreProcessed}, some (h, q, pre') = some (h', q', pre) →
      Does L ok t others (h, l) (h', l) := fun hsome => by
    obtain ⟨rfl, _⟩ := Prod.mk.inj (Option.some.inj hsome)
    exact .refl
  unfold preProcessElem at hpre
  dsimp only at hpre
  split at hpre
  · obtain ⟨h₁, hrele, hpre⟩ := Option.bind_eq_some_iff.mp hpre
    obtain ⟨h₂, hlow, hpre⟩ := Option.bind_eq_some_iff.mp hpre
    obtain ⟨h₃, hhigh, heq⟩ := Option.map_eq_some_iff.mp hpre
    obtain ⟨rfl, _⟩ := Prod.mk.inj heq
    exact (Does.releAndRecycle hplain hrele).trans ((Does.dropSlice hplain hlow).trans (.dropSlice hplain hhigh))
  · split at hpre
    · cases revoker with
      | request r c => exact hstay hpre
      | gc => exact hrelease hpre
    · split at hpre
      · split at hpre
        · simp at hpre
        · cases revoker with
          | request r c => exact hstay hpre
          | gc => exact hrelease hpre
      · exact hstay hpre

omit [DecidableEq φ] [DecidableEq ν] in
theorem Revoker.return_held (revoker : Revoker φ ν) (q : ConflictQ) (code : Code) :
    (revoker.return q code).held = revoker.held ∧ (revoker.return q code).Plain := by
  cases revoker with
  | request r c => exact ⟨rfl, rfl, rfl, rfl⟩
  | gc => exact ⟨rfl, rfl, rfl, rfl⟩

theorem tkm_PreProcessConflictQ_runs {i : ℕ} {expired recent : Bool}
    (hplain : ok .plain) (hpre : tkm_PreProcessConflictQ L h revoker q i expired recent = some res) :
    Runs L ok t others (h, revoker.held) res := by
  have hreturn := revoker.return_held
  rw [tkm_PreProcessConflictQ] at hpre
  split at hpre
  · split at hpre
    · obtain rfl := Option.some.inj hpre
      exact ⟨by rw [(hreturn q _).1]; exact .refl, (hreturn q _).2⟩
    · obtain rfl := Option.some.inj hpre
      exact ⟨.refl, rfl, rfl, rfl⟩
  · obtain ⟨p, _, hpre⟩ := Option.bind_eq_some_iff.mp hpre
    obtain ⟨⟨h₁, q', pre⟩, helem, rfl⟩ := Option.map_eq_some_iff.mp hpre
    have hdoes : Does L ok t others (h, revoker.held) (h₁, revoker.held) := preProcessElem_does hplain helem
    cases pre with
    | next => exact ⟨hdoes, rfl, rfl, rfl⟩
    | sleep => exact ⟨hdoes, rfl, rfl, rfl⟩
    | refused => exact ⟨by rw [(hreturn q' _).1]; exact hdoes, (hreturn q' _).2⟩

omit [DecidableEq φ] [DecidableEq ν] [DecidableEq τ] in
theorem describeNext_known {pos : ℕ} {revokeList : List RevokeDesc}
    {stage : Stage} {locals : τ → List Ptr} (hs : Sound h locals)
    (hknown : (Thread.revoke revoker q (.describe pos revokeList)).Known h)
    (hnext : describeNext h q pos revokeList = some stage) : (Thread.revoke revoker q stage).Known h := by
  have hcall : (Thread.revoke revoker q (.doRevoke pos revokeList [] .TKM_SUCCESS)).Known h :=
    ⟨nofun, hknown.named, hknown.columnA, hknown.columnB, nofun, nofun⟩
  rw [describeNext] at hnext
  split at hnext
  · obtain rfl := Option.some.inj hnext
    exact hcall
  · next elem _ =>
    split at hnext
    · obtain rfl := Option.some.inj hnext
      exact ⟨nofun, hknown.named, hknown.columnA, hknown.columnB, nofun, nofun⟩
    · next p hp =>
      dsimp only at hnext
      obtain ⟨hheld, hnext⟩ := Option.ite_none_left_eq_some.mp hnext
      split at hnext
      · obtain rfl := Option.some.inj hnext
        exact hcall
      · obtain rfl := Option.some.inj hnext
        obtain ⟨holder, hgranted⟩ := hs.held p hheld
        have hcolumn : ∀ grant : Option Ptr, ∀ c ∈ column h grant, h.Offered c.1 c.2 := fun grant c hc => by
          obtain ⟨g, _, rfl⟩ := Option.map_eq_some_iff.mp hc
          exact hs.heap_offered g
        refine ⟨nofun, fun d hd => ?_, fun d hd => ?_, fun d hd => ?_, nofun, nofun⟩
        · rcases List.mem_append.mp hd with hd | hd
          · exact hknown.named d hd
          · obtain rfl := List.mem_singleton.mp hd
            exact hs.heap_named hgranted
        · rcases List.mem_append.mp hd with hd | hd
          · exact hknown.columnA d hd
          · obtain rfl := List.mem_singleton.mp hd
            exact hcolumn elem.grantLow
        · rcases List.mem_append.mp hd with hd | hd
          · exact hknown.columnB d hd
          · obtain rfl := List.mem_singleton.mp hd
            exact hcolumn elem.grantHigh

theorem tkm_DoRevoke_does {q q' : ConflictQ} {revoke : RevokeDesc} {answer : Answer}
    {code code' : Code} {acceptances : List Acceptance} (hplain : ok .plain) (hnamed : h.Named revoke.tokenID)
    (hanswer : tkm_DoRevoke L h revoker q revoke answer code = some (h', q', acceptances, code')) :
    Does L ok t others (h, l) (h', l) := by
  obtain ⟨conflict, _, hanswer⟩ := Option.bind_eq_some_iff.mp hanswer
  obtain ⟨p, _, hanswer⟩ := Option.bind_eq_some_iff.mp hanswer
  dsimp only at hanswer
  obtain ⟨hid, hanswer⟩ := Option.ite_none_left_eq_some.mp hanswer
  rw [not_or, not_not] at hid
  obtain ⟨holder, hp⟩ := hnamed.granted p hid.1
  split at hanswer
  · obtain ⟨h₁, hremove, heq⟩ := Option.map_eq_some_iff.mp hanswer
    obtain ⟨rfl, _⟩ := Prod.mk.inj heq
    cases revoker with
    | request r c =>
      have hnote : Does L ok t others (h, l) (noteRefused h (.request r c) p (answer.errorIDs ∩ revoke.type), l) :=
        .touch hplain ⟨rfl, rfl, rfl, rfl⟩ rfl .inl id
      exact hnote.trans (.removeTypes hplain (by simpa [noteRefused] using hp) hremove)
    | gc => exact .removeTypes hplain hp hremove
  · obtain ⟨h₁, hremove, heq⟩ := Option.map_eq_some_iff.mp hanswer
    obtain ⟨rfl, _⟩ := Prod.mk.inj heq
    exact .releTypes hplain hp hremove

theorem tkm_DoRevoke_acceptances {q q' : ConflictQ} {revoke : RevokeDesc} {answer : Answer}
    {code code' : Code} {acceptances : List Acceptance}
    (hanswer : tkm_DoRevoke L h revoker q revoke answer code = some (h', q', acceptances, code')) :
    ∀ a ∈ acceptances, a.accepted ⊆ a.offered ∧
      ((a.tokenID, a.offered) ∈ revoke.columnA ∨ (a.tokenID, a.offered) ∈ revoke.columnB) := by
  obtain ⟨conflict, _, hanswer⟩ := Option.bind_eq_some_iff.mp hanswer
  obtain ⟨p, _, hanswer⟩ := Option.bind_eq_some_iff.mp hanswer
  have hacceptance : ∀ {grant column choice} {a : Acceptance}, a ∈ acceptance grant column choice →
      (a.tokenID, a.offered) ∈ column := fun {grant column choice a} ha => by
    unfold acceptance at ha
    split at ha
    · obtain rfl := List.mem_singleton.mp ha
      exact Option.mem_some_self _
    · simp at ha
  dsimp only at hanswer
  obtain ⟨hid, hanswer⟩ := Option.ite_none_left_eq_some.mp hanswer
  rw [not_or, not_exists] at hid
  have hall : acceptances = acceptance conflict.grantLow revoke.columnA answer.colAChoice ++
      acceptance conflict.grantHigh revoke.columnB answer.colBChoice := by
    split at hanswer
    · obtain ⟨_, _, heq⟩ := Option.map_eq_some_iff.mp hanswer
      simp_all
    · obtain ⟨_, _, heq⟩ := Option.map_eq_some_iff.mp hanswer
      simp_all
  intro a ha
  rw [hall] at ha
  refine ⟨not_not.mp fun hnot => hid.2 a ⟨ha, hnot⟩, ?_⟩
  exact (List.mem_append.mp ha).imp hacceptance hacceptance

/-- A client that accepts some, but not all types of a slice. -/
def Acceptance.mixed (a : Acceptance) (h : Heap φ ν) : Prop :=
  a.accepted ≠ ∅ ∧ a.accepted ≠ (h.token a.internalP).types

theorem tkm_AdjustAccepted_does {a : Acceptance} (hplain : ok .plain) (hmixed : a.mixed h → ok .mixed)
    (hoffered : h.Offered a.tokenID a.offered) (haccepted : a.accepted ⊆ a.offered)
    (hadjust : tkm_AdjustAccepted L h a = some h') : Does L ok t others (h, l) (h', l) := by
  rw [tkm_AdjustAccepted] at hadjust
  obtain ⟨hassert, hadjust⟩ := Option.ite_none_left_eq_some.mp hadjust
  rw [not_or, not_or, not_not, not_not] at hassert
  obtain ⟨hgranting, _, hid⟩ := hassert
  split at hadjust
  · exact .recycle hplain hadjust
  · next hsome =>
    obtain rfl := Option.some.inj hadjust
    by_cases hsame : a.accepted = (h.token a.internalP).types
    · exact .touch hplain ⟨rfl, rfl, rfl, rfl⟩ hsame .inl (by simp)
    · by_cases hzero : (h.token a.internalP).id = 0
      · exact .prim hplain (.touch h l a.internalP ⟨rfl, rfl, rfl, rfl⟩ (absurd hzero) .inl (by simp))
      · refine .of_sound fun hs => ?_
        obtain ⟨holder, hp⟩ := hs.granting _ hgranting hzero
        have hsub : a.accepted ⊆ (h.token a.internalP).types :=
          haccepted.trans (hoffered.types (hid ▸ hzero) _ hid.symm (.inl hgranting))
        exact .prim (hmixed ⟨hsome, hsame⟩) (.adjust h l hp hsub)

/-! The steps of a thread -/

def Thread.request : Thread φ ν → Option Request
  | fixFile r _ => some r
  | fileLoop r _ _ => some r
  | alloc r .. => some r
  | volLoop r _ => some r
  | revoke (.request r _) _ _ => some r
  | revoked r .. => some r
  | beingGranted r .. => some r
  | volWalked r .. => some r
  | _ => none

/-- A step in which a client accepts some, but not all types of a slice. -/
def Thread.mixes (h : Heap φ ν) : Thread φ ν → Action φ ν → Prop
  | revoke _ _ (.doRevoke _ _ acceptances _), .accept j => ∃ a ∈ acceptances[j]?, a.mixed h
  | _, _ => False

/-- A step that ends the loop of `tkm_FixFileConflicts` with tokens in the pool, or
with which an attempt of an asynchronous grant fails for good. -/
def Thread.leaks (h : Heap φ ν) : Thread φ ν → Action φ ν → Prop
  | fileLoop r c pool, .run => pool ≠ [] ∧
    ((tkm_ConflictingTokens h (h.file c.file).granted (h.token r.tokenP)).1 = [] ∨ r.flags.expectNoConfl = true)
  | alloc r .., .allocFail => r.flags = .doingAsyncGrant
  | revoked r (.file _) _ code, .run =>
    r.flags = .doingAsyncGrant ∧ code ≠ .TKM_SUCCESS ∧ code ≠ .TKM_ERROR_TOKENCONFLICT
  | revoked r (.vol c) _ code, .run =>
    r.flags = .doingAsyncGrant ∧ code ≠ .TKM_SUCCESS ∧ code ≠ .TKM_ERROR_TOKENCONFLICT ∧ c.current h
  | _, _ => False

instance (h : Heap φ ν) (a : Acceptance) : Decidable (a.mixed h) := inferInstanceAs (Decidable (_ ∧ _))

instance (h : Heap φ ν) (th : Thread φ ν) (action : Action φ ν) : Decidable (th.mixes h action) := by
  unfold Thread.mixes
  split <;> infer_instance

instance (h : Heap φ ν) (c : VolCaller φ ν) : Decidable (c.current h) :=
  match c with
  | .getFileToken .. => inferInstanceAs (Decidable (_ = _))
  | .getVolToken _ => inferInstanceAs (Decidable True)

instance (h : Heap φ ν) (th : Thread φ ν) (action : Action φ ν) : Decidable (th.leaks h action) := by
  unfold Thread.leaks
  split <;> infer_instance

theorem Thread.Known.lift {a b : Heap φ ν × List Ptr} (hknown : th.Known a.1)
    (hchain : Chain L ok a b) (hs : Sound a.1 (Function.update others t a.2))
    (hpool : ∀ p ∈ th.pool, (b.1.token p).types = ∅) : th.Known b.1 where
  pool := hpool
  named d hd := hchain.heap_named hs (hknown.named d hd)
  columnA d hd c hc := hchain.heap_offered hs (hknown.columnA d hd c hc)
  columnB d hd c hc := hchain.heap_offered hs (hknown.columnB d hd c hc)
  offered a ha := hchain.heap_offered hs (hknown.offered a ha)
  accepted := hknown.accepted

theorem getToken_runs {types : Types} {range : ByteRange} {host : Host} {queue noConfl opt : Bool}
    (hplain : ok .plain) (hget : getToken L h holder types range host queue noConfl opt = some res) :
    Runs L ok t others (h, []) res := by
  obtain ⟨⟨p, h₁⟩, htake, rfl⟩ := Option.map_eq_some_iff.mp hget
  have htook : Does L ok t others (h, []) (h₁, [p]) := .prim hplain (.take [] htake)
  have hblank : (h₁.token p).types = ∅ := by
    obtain ⟨-, -, rfl⟩ := tkm_GetFreeToken_spec htake
    simp [Heap.setToken, Token.blank]
  set tok : Token φ ν :=
    { h₁.token p with host := host, types := types, range := range, holder := some holder }
  have hfill : Does L ok t others (h, []) (h₁.setToken p tok, [p]) :=
    htook.trans (.prim hplain (.fill h₁ p [] tok rfl rfl rfl (by simp [hblank])))
  have hfailed : Runs L ok t others (h₁.setToken p tok, [p])
      (requestFailed (h₁.setToken p tok) ⟨p, .getToken queue noConfl opt⟩) := by
    refine requestFailed_runs (r := ⟨p, .getToken queue noConfl opt⟩) hplain ?_
    simp
  dsimp only
  split
  · exact hfailed.after hfill
  · cases holder with
    | file f => exact ⟨hfill, rfl, rfl, rfl⟩
    | volume v =>
      dsimp only
      split
      · exact hfailed.after hfill
      · exact ⟨hfill.trans (.prim hplain (.shelve _ (.beingGranted v) p [])), rfl, rfl, rfl⟩

omit [DecidableEq φ] [DecidableEq ν] in
theorem Heap.granted_of_isGranted [DecidableEq φ] [DecidableEq ν] (hp : h.isGranted p = true) :
    ∃ holder, p ∈ h.granted holder := by
  rw [isGranted, Option.any_eq_true] at hp
  obtain ⟨holder, _, hp⟩ := hp
  exact ⟨holder, of_decide_eq_true hp⟩

variable (hplain : ok .plain)

include hplain

theorem tkm_ReturnToken_does {rights : Types}
    (hreturn : tkm_ReturnToken L h holder n rights = some h') : Does L ok t others (h, l) (h', l) := by
  rw [tkm_ReturnToken] at hreturn
  split at hreturn
  · obtain rfl := Option.some.inj hreturn
    exact .refl
  · next p hfind =>
    obtain ⟨h₁, hremove, rfl⟩ := Option.map_eq_some_iff.mp hreturn
    have hremoved : Does L ok t others (h, l) (h₁, l) :=
      .removeTypes hplain (List.mem_of_find?_eq_some hfind) hremove
    split
    · split
      · exact hremoved.trans (.touch hplain ⟨rfl, rfl, rfl, rfl⟩ rfl .inl id)
      · exact hremoved
    · exact hremoved

theorem removeFromQueued_does (hremove : removeFromQueued h holder p = some h') : Does L ok t others (h, l) (h', p :: l) := by
  cases holder with
  | file f =>
    rw [removeFromQueued] at hremove
    split at hremove
    · next hp =>
      obtain rfl := Option.some.inj hremove
      exact .prim hplain (.unqueue h (.file f) l hp)
    · simp at hremove
  | volume v =>
    rw [removeFromQueued] at hremove
    split at hremove
    · next hp =>
      obtain rfl := Option.some.inj hremove
      exact .prim hplain (.unqueue h (.volume v) l hp)
    · simp at hremove

theorem start_runs (hstart : start L h action = some res) : Runs L ok t others (h, []) res := by
  cases action with
  | moreTokens n =>
    obtain rfl := Option.some.inj hstart
    exact ⟨.moreTokens hplain n, rfl, rfl, rfl⟩
  | tkm_GetToken => exact getToken_runs hplain hstart
  | tkm_ReturnToken =>
    obtain ⟨h₁, hreturn, rfl⟩ := Option.map_eq_some_iff.mp hstart
    exact ⟨tkm_ReturnToken_does hplain hreturn, rfl, rfl, rfl⟩
  | expire p =>
    rw [start] at hstart
    split at hstart
    · obtain ⟨h₁, hrecycle, rfl⟩ := Option.map_eq_some_iff.mp hstart
      exact ⟨.recycle hplain hrecycle, rfl, rfl, rfl⟩
    · simp at hstart
  | clearRefused p =>
    rw [start] at hstart
    split at hstart
    · obtain rfl := Option.some.inj hstart
      exact ⟨.touch hplain ⟨rfl, rfl, rfl, rfl⟩ rfl .inl id, rfl, rfl, rfl⟩
    · simp at hstart
  | tryAsyncGrant holder p =>
    obtain ⟨h₁, hremove, hrest⟩ := Option.bind_eq_some_iff.mp hstart
    have hremoved : Does L ok t others (h, []) (h₁, [p]) := removeFromQueued_does hplain hremove
    split at hrest
    · obtain rfl := Option.some.inj hrest
      exact ⟨hremoved, rfl, rfl, rfl⟩
    · simp at hrest
  | gcStart =>
    obtain rfl := Option.some.inj hstart
    exact ⟨.refl, rfl, rfl, rfl⟩
  | _ => simp [start] at hstart

theorem revokeStep_goes {stage : Stage} (hmixed : (Thread.revoke revoker q stage).mixes h action → ok .mixed)
    (hknown : (Thread.revoke revoker q stage).Known h) (hstep : revokeStep L h revoker q stage action = some res) :
    Goes L ok t others (h, revoker.held) res := by
  unfold revokeStep at hstep
  split at hstep
  · exact (tkm_PreProcessConflictQ_runs hplain hstep).goes
  · obtain ⟨p, _, hstep⟩ := Option.bind_eq_some_iff.mp hstep
    split at hstep
    · simp at hstep
    · obtain rfl := Option.some.inj hstep
      exact Runs.goes ⟨.refl, rfl, rfl, rfl⟩
  · obtain ⟨stage, hnext, rfl⟩ := Option.map_eq_some_iff.mp hstep
    exact ⟨.refl, fun hs => describeNext_known hs hknown hnext⟩
  · next pos revokeList acceptances code j answer =>
    obtain ⟨revoke, hj, hstep⟩ := Option.bind_eq_some_iff.mp hstep
    obtain ⟨⟨h₁, q', more, code'⟩, hanswer, rfl⟩ := Option.map_eq_some_iff.mp hstep
    have hmem : revoke ∈ revokeList := List.mem_of_getElem? hj
    have hdoes : Does L ok t others (h, revoker.held) (h₁, revoker.held) :=
      tkm_DoRevoke_does hplain (hknown.named revoke hmem) hanswer
    refine ⟨hdoes, fun hs => ?_⟩
    have hlater := hknown.lift (hdoes hs) hs nofun
    have hsub : ∀ d ∈ revokeList.eraseIdx j, d ∈ revokeList := fun d hd => List.mem_of_mem_eraseIdx hd
    have hmore := tkm_DoRevoke_acceptances hanswer
    refine ⟨nofun, fun d hd => hlater.named d (hsub d hd), fun d hd => hlater.columnA d (hsub d hd),
      fun d hd => hlater.columnB d (hsub d hd), fun a ha => ?_, fun a ha => ?_⟩
    · rcases List.mem_append.mp ha with ha | ha
      · exact hlater.offered a ha
      · rcases (hmore a ha).2 with hcolumn | hcolumn
        · exact hlater.columnA revoke hmem _ hcolumn
        · exact hlater.columnB revoke hmem _ hcolumn
    · rcases List.mem_append.mp ha with ha | ha
      · exact hlater.accepted a ha
      · exact (hmore a ha).1
  · next pos revokeList acceptances code j tryAgain =>
    split at hstep
    · obtain rfl := Option.some.inj hstep
      have hsub : ∀ d ∈ revokeList.eraseIdx j, d ∈ revokeList := fun d hd => List.mem_of_mem_eraseIdx hd
      exact ⟨.refl, fun _ => ⟨nofun, fun d hd => hknown.named d (hsub d hd), fun d hd => hknown.columnA d (hsub d hd),
        fun d hd => hknown.columnB d (hsub d hd), hknown.offered, hknown.accepted⟩⟩
    · simp at hstep
  · next pos revokeList acceptances code j =>
    obtain ⟨a, hj, hstep⟩ := Option.bind_eq_some_iff.mp hstep
    obtain ⟨h₁, hadjust, rfl⟩ := Option.map_eq_some_iff.mp hstep
    have hmem : a ∈ acceptances := List.mem_of_getElem? hj
    have hdoes : Does L ok t others (h, revoker.held) (h₁, revoker.held) :=
      tkm_AdjustAccepted_does hplain (fun hmix => hmixed ⟨a, hj, hmix⟩) (hknown.offered a hmem) (hknown.accepted a hmem)
        hadjust
    refine ⟨hdoes, fun hs => ?_⟩
    have hlater := hknown.lift (hdoes hs) hs nofun
    have hsub : ∀ a ∈ acceptances.eraseIdx j, a ∈ acceptances := fun a ha => List.mem_of_mem_eraseIdx ha
    exact ⟨nofun, hlater.named, hlater.columnA, hlater.columnB, fun a ha => hlater.offered a (hsub a ha),
      fun a ha => hlater.accepted a (hsub a ha)⟩
  · next pos code =>
    obtain rfl := Option.some.inj hstep
    rw [pardoDone]
    split
    · obtain ⟨hheld, hnone⟩ := revoker.return_held q code
      exact Runs.goes ⟨by rw [hheld]; exact .refl, hnone⟩
    · exact Runs.goes ⟨.refl, rfl, rfl, rfl⟩
  · simp at hstep

theorem Thread.step_goes (hslice : ok .slice) (hgrants : ok .grant) (hunbeing : ∀ r ∈ th.request, ok (.unbeing r.tokenP))
    (hmixed : th.mixes h action → ok .mixed) (hleak : th.leaks h action → ok .leak) (hknown : th.Known h)
    (hstep : th.step L h action = some res) : Goes L ok t others (h, th.held) res := by
  unfold Thread.step at hstep
  split at hstep
  · exact (start_runs hplain hstep).goes
  · exact tkm_FixFileConflicts_goes hplain hslice (hunbeing _ rfl) hgrants hstep
  · exact fileConflictLoop_goes hplain hslice (hunbeing _ rfl) hgrants (fun hpool hend => hleak ⟨hpool, hend⟩)
      hknown.pool hstep
  · next r c q pool ret n =>
    obtain rfl := Option.some.inj hstep
    set more := tkm_AllocTokenNoSleep h (n - ret.length)
    obtain ⟨_, _, hshrinks, hnew⟩ := allocLoop_spec (h := h) (n := n - ret.length)
    have hperm : (more.1 ++ (ret ++ pool ++ c.held r)).Perm (ret ++ more.1 ++ pool ++ c.held r) := by
      simp only [← List.append_assoc]
      exact (List.perm_append_comm.append_right pool).append_right _
    refine ⟨(Does.allocNoSleep hplain _).trans (.perm hplain hperm), fun _ => ⟨fun p hp => ?_, nofun, nofun, nofun,
      nofun, nofun⟩⟩
    have hp' : p ∈ ret ++ pool ∨ p ∈ more.1 := by
      simp only [Thread.pool, List.mem_append] at hp ⊢
      tauto
    rcases hp' with hp' | hp'
    · exact hshrinks.blank (hknown.pool p hp')
    · exact hnew (by simp) p hp'
  · next r c q pool ret n =>
    split at hstep
    · obtain ⟨h₁, hdelete, hfail⟩ := Option.bind_eq_some_iff.mp hstep
      have hruns : Runs L ok t others (h₁, c.held r) res :=
        fixFileFailed_runs hplain (hunbeing _ rfl) (fun hflags _ => hleak hflags) hfail
      have hfree : Does L ok t others (h, ret ++ pool ++ c.held r)
          (tkm_FreeTokens (tkm_FreeTokens h ret) pool, c.held r) := by
        rw [List.append_assoc]
        exact (Does.freeTokens hplain ret).trans (.freeTokens hplain pool)
      exact (hruns.after (hfree.trans (.deleteConflictQ hplain hdelete))).goes
    · simp at hstep
  · split at hstep
    · exact allocated_goes hplain hslice (fun _ => hgrants) hknown.pool hstep
    · simp at hstep
  · exact (tkm_FixVolConflicts_runs hplain (hunbeing _ rfl) hgrants hstep).goes
  · exact revokeStep_goes hplain hmixed hknown hstep
  · exact (fileRevoked_runs hplain (hunbeing _ rfl) (fun hflags hcode hconflict => hleak ⟨hflags, hcode, hconflict⟩)
      hstep).goes
  · exact (volRevoked_runs hplain (hunbeing _ rfl)
      (fun hflags hcode hconflict hnow => hleak ⟨hflags, hcode, hconflict, hnow⟩) hstep).goes
  · exact (getFileTokenVol_runs hplain (hunbeing _ rfl) hgrants hstep).goes
  · obtain rfl := Option.some.inj hstep
    exact Runs.goes ⟨.touch hplain ⟨rfl, rfl, rfl, rfl⟩ rfl .inl (by simp), rfl, rfl, rfl⟩
  · split at hstep
    · obtain rfl := Option.some.inj hstep
      exact Runs.goes ⟨.refl, rfl, rfl, rfl⟩
    · exact (grantVolToken_runs (hunbeing _ rfl) hgrants hstep).goes
  · next q p =>
    split at hstep
    · next hcan =>
      obtain rfl := Option.some.inj hstep
      obtain ⟨holder, hp⟩ := Heap.granted_of_isGranted hcan.1
      exact Runs.goes ⟨.hold hplain hp, rfl, rfl, rfl⟩
    · simp at hstep
  · obtain rfl := Option.some.inj hstep
    exact Runs.goes ⟨.refl, rfl, rfl, rfl⟩
  · obtain rfl := Option.some.inj hstep
    exact Runs.goes ⟨.refl, rfl, rfl, rfl⟩
  · split at hstep
    · obtain rfl := Option.some.inj hstep
      exact Runs.goes ⟨.refl, rfl, rfl, rfl⟩
    · obtain ⟨h₁, hrele, rfl⟩ := Option.map_eq_some_iff.mp hstep
      exact Runs.goes ⟨.reletoken hplain hrele, rfl, rfl, rfl⟩
  · simp at hstep

end dce.tkm
