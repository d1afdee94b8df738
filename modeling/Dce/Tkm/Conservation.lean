import Dce.Tkm.Steps

open lib Relation

namespace dce.tkm

variable {φ ν τ : Type} {L : Layout φ ν}

def State.locals (s : State φ ν τ) (t : τ) : List Ptr := (s.thread t).held

/-- The heap is sound, and every thread can rely on what it has seen. -/
structure State.Good (s : State φ ν τ) : Prop where
  sound : Sound s.heap s.locals
  known : ∀ t, (s.thread t).Known s.heap

theorem Thread.pool_subset_held (th : Thread φ ν) : th.pool ⊆ th.held := by
  cases th with
  | fileLoop r c pool => exact List.subset_append_left _ _
  | alloc r c q pool ret n => exact List.subset_append_left _ _
  | _ => exact List.nil_subset _

theorem State.Good.init {s : State φ ν τ} {lastTokenId : ℕ} (hheap : s.heap = Heap.init lastTokenId)
    (hidle : ∀ t, s.thread t = .idle) : s.Good where
  sound := by
    have hnone : ∀ place, contents s.heap s.locals place = [] := by
      rintro (_ | (f | v) | ((f | v) | v) | t)
      all_goals simp [contents, hheap, Heap.init, Heap.granted, Heap.shelf, State.locals, hidle, Thread.held]
    have hid : ∀ p, (s.heap.token p).id = 0 := by simp [hheap, Heap.init, Token.blank]
    refine ⟨⟨by simp [hnone], by simp [hnone]⟩, by simp [hnone], fun holder p hp => ?_, ?_, ?_, by simp [hnone],
      by simp [hid], fun p q _ hp => absurd (hid p) hp⟩
    · have hmem : p ∈ contents s.heap s.locals (.granted holder) := hp
      simp [hnone] at hmem
    · simp [hheap, Heap.init, Token.blank]
    · simp [hheap, Heap.init, Token.blank]
  known t := by
    rw [hidle]
    exact (⟨rfl, rfl, rfl⟩ : Thread.Plain _).known s.heap

variable [DecidableEq φ] [DecidableEq ν] [DecidableEq τ] {ok : Kind → Prop} {s s' : State φ ν τ}
  {i : τ × Action φ ν}

/-- What a step leaves alone, and what it is made of. -/
structure State.Next (L : Layout φ ν) (ok : Kind → Prop) (s : State φ ν τ) (t : τ) (s' : State φ ν τ) : Prop where
  chain : Chain L ok (s.heap, s.locals t) (s'.heap, s'.locals t)
  thread : ∀ t', t' ≠ t → s'.thread t' = s.thread t'
  good : s'.Good

theorem tokenManager_step {t : τ} {action : Action φ ν} (hstep : (tokenManager L τ).step s (t, action) = some s') :
    ∃ th, (s.thread t).step L s.heap action = some (s'.heap, th) ∧ s'.thread = Function.update s.thread t th := by
  obtain ⟨⟨h, th⟩, hthread, rfl⟩ := Option.map_eq_some_iff.mp hstep
  exact ⟨th, hthread, rfl⟩

theorem State.Good.next (hgood : s.Good) {t : τ} {action : Action φ ν} (hplain : ok .plain) (hslice : ok .slice)
    (hgrants : ok .grant) (hunbeing : ∀ r ∈ (s.thread t).request, ok (.unbeing r.tokenP))
    (hmixed : (s.thread t).mixes s.heap action → ok .mixed) (hleak : (s.thread t).leaks s.heap action → ok .leak)
    (hstep : (tokenManager L τ).step s (t, action) = some s') : s.Next L ok t s' := by
  obtain ⟨th, hthread, hupdate⟩ := tokenManager_step hstep
  have hsame : Function.update s.locals t (s.locals t) = s.locals := Function.update_eq_self ..
  have hs : Sound s.heap (Function.update s.locals t (s.locals t)) := hsame.symm ▸ hgood.sound
  obtain ⟨hdoes, hknown⟩ : Goes L ok t s.locals (s.heap, s.locals t) (s'.heap, th) :=
    Thread.step_goes hplain hslice hgrants hunbeing hmixed hleak (hgood.known t) hthread
  have hother : ∀ t', t' ≠ t → s'.thread t' = s.thread t' := fun t' ht => by rw [hupdate, Function.update_of_ne ht]
  have hself : s'.thread t = th := by rw [hupdate, Function.update_self]
  have hlocals : s'.locals = Function.update s.locals t th.held := by
    funext t'
    by_cases ht : t' = t
    · subst ht
      rw [Function.update_self, State.locals, hself]
    · rw [Function.update_of_ne ht, State.locals, hother t' ht, State.locals]
  have hchain : Chain L ok (s.heap, s.locals t) (s'.heap, th.held) := hdoes hs
  refine ⟨?_, hother, hlocals ▸ hchain.sound hs, fun t' => ?_⟩
  · rwa [hlocals, Function.update_self]
  · by_cases ht : t' = t
    · subst ht
      rw [hself]
      exact hknown hs
    · rw [hother t' ht]
      refine (hgood.known t').lift hchain hs fun p hp => ?_
      have hkept := hchain.kept_local hs ht ((s.thread t').pool_subset_held hp)
      rw [hkept.types]
      exact (hgood.known t').pool p hp

theorem State.Good.step (hgood : s.Good) (hstep : (tokenManager L τ).step s i = some s') : s'.Good :=
  have hnext : s.Next L (fun _ => True) i.1 s' :=
    hgood.next trivial trivial trivial (fun _ _ => trivial) (fun _ => trivial) (fun _ => trivial) hstep
  hnext.good

/-! No structure is lost -/

/-- The structure `p` is in some place that the running thread can reach. -/
def Present (a : Heap φ ν × List Ptr) (p : Ptr) : Prop :=
  p ∈ a.1.freeTokens ∨ (∃ holder, p ∈ a.1.granted holder) ∨ (∃ shelf, p ∈ a.1.shelf shelf) ∨ p ∈ a.2

variable {a b : Heap φ ν × List Ptr} {p : Ptr} {h h' : Heap φ ν} {l : List Ptr}

omit [DecidableEq φ] [DecidableEq ν] in
theorem Present.lift (hp : Present a p)
    (hgranted : ∀ holder, a.1.granted holder ⊆ b.1.granted holder) (hshelf : ∀ shelf, a.1.shelf shelf ⊆ b.1.shelf shelf)
    (hrest : p ∈ a.1.freeTokens ∨ p ∈ a.2 → p ∈ b.1.freeTokens ∨ p ∈ b.2) : Present b p := by
  have hput : p ∈ a.1.freeTokens ∨ p ∈ a.2 → Present b p := fun h =>
    (hrest h).elim .inl fun h => .inr (.inr (.inr h))
  obtain hp | ⟨holder, hp⟩ | ⟨shelf, hp⟩ | hp := hp
  · exact hput (.inl hp)
  · exact .inr (.inl ⟨holder, hgranted holder hp⟩)
  · exact .inr (.inr (.inl ⟨shelf, hshelf shelf hp⟩))
  · exact hput (.inr hp)

omit [DecidableEq φ] [DecidableEq ν] in
theorem Heap.SameLists.present (hsame : h.SameLists h')
    (hp : Present (h, l) p) : Present (h', l) p := by
  simpa only [Present, hsame.freeTokens, hsame.granted, hsame.shelf] using hp

theorem Heap.Grants.present {p q : Ptr} {holder : Holder φ ν} (hgrants : h.Grants L p holder h')
    (hq : Present (h, p :: l) q) : Present (h', l) q := by
  by_cases hqp : q = p
  · exact .inr (.inl ⟨holder, by simp [hgrants.granted, hqp]⟩)
  · refine hq.lift (fun holder' r hr => ?_) (fun shelf r hr => ?_) fun hr => ?_
    · rw [hgrants.granted]
      split
      · next heq => exact List.mem_cons_of_mem _ (heq ▸ hr)
      · exact hr
    · exact (hgrants.shelf shelf).symm ▸ hr
    · simpa [hgrants.freeTokens, hqp] using hr

theorem Heap.Returns.present {p q : Ptr} {holder : Holder φ ν} (hreturns : h.Returns p holder h')
    (hq : Present (h, l) q) : Present (tkm_PutTokenInFreeList h' p, l) q := by
  by_cases hqp : q = p
  · exact .inl (hqp ▸ List.mem_cons_self)
  · obtain hq | ⟨holder', hq⟩ | ⟨shelf, hq⟩ | hq := hq
    · exact .inl (List.mem_cons_of_mem _ (hreturns.freeTokens ▸ hq))
    · refine .inr (.inl ⟨holder', ?_⟩)
      rw [tkm_PutTokenInFreeList_granted, hreturns.granted]
      split
      · next heq => exact (List.mem_erase_of_ne hqp).mpr (heq ▸ hq)
      · exact hq
    · refine .inr (.inr (.inl ⟨shelf, ?_⟩))
      rwa [tkm_PutTokenInFreeList_shelf, hreturns.shelf]
    · exact .inr (.inr (.inr hq))

omit [DecidableEq φ] [DecidableEq ν] in
theorem mem_erase_or_cons {p q : Ptr} {list l : List Ptr} (hp : p ∈ list ∨ p ∈ l) : p ∈ list.erase q ∨ p ∈ q :: l := by
  by_cases hpq : p = q
  · exact .inr (hpq ▸ List.mem_cons_self)
  · exact hp.imp (List.mem_erase_of_ne hpq).mpr (List.mem_cons_of_mem _)

theorem Heap.present_setShelf {h : Heap φ ν} {shelf : Shelf φ ν} {list l l' : List Ptr}
    (hto : ∀ q, q ∈ h.shelf shelf ∨ q ∈ l → q ∈ list ∨ q ∈ l') (hp : Present (h, l) p) :
    Present (h.setShelf shelf list, l') p := by
  have hput : ∀ q, q ∈ h.shelf shelf ∨ q ∈ l → Present (h.setShelf shelf list, l') q := fun q hq =>
    (hto q hq).elim (fun hq => .inr (.inr (.inl ⟨shelf, by simpa [Heap.setShelf_shelf] using hq⟩)))
      fun hq => .inr (.inr (.inr hq))
  obtain hp | ⟨holder, hp⟩ | ⟨shelf', hp⟩ | hp := hp
  · exact .inl (by simpa using hp)
  · exact .inr (.inl ⟨holder, by simpa using hp⟩)
  · by_cases heq : shelf' = shelf
    · exact hput p (.inl (heq ▸ hp))
    · exact .inr (.inr (.inl ⟨shelf', by simpa [Heap.setShelf_shelf, heq] using hp⟩))
  · exact hput p (.inr hp)

theorem Prim.present {k : Kind} (hprim : Prim L k a b) (hk : k ≠ .leak)
    (hp : Present a p) : Present b p := by
  cases hprim with
  | alloc h l =>
    refine hp.lift (fun holder => ?_) (fun shelf => ?_) fun hr => hr.imp_left (List.mem_cons_of_mem _)
    · cases holder <;> exact List.Subset.refl _
    · rcases shelf with (_ | _) | _ <;> exact List.Subset.refl _
  | take l htake =>
    rename_i h h' q
    obtain ⟨rest, hfree, rfl⟩ := tkm_GetFreeToken_spec htake
    refine hp.lift (fun holder => ?_) (fun shelf => ?_) fun hr => ?_
    · cases holder <;> exact List.Subset.refl _
    · rcases shelf with (_ | _) | _ <;> exact List.Subset.refl _
    · simp only [hfree, List.mem_cons] at hr ⊢
      tauto
  | put h q l =>
    refine hp.lift (fun holder => by simp) (fun shelf => by simp) fun hr => ?_
    simp only [tkm_PutTokenInFreeList, List.mem_cons] at hr ⊢
    tauto
  | fill h q l tok => exact (Heap.SameLists.setToken h q tok).present hp
  | slice l _ _ _ _ _ _ hgrant =>
    obtain ⟨holder, _, hgrants⟩ := tkm_GrantHolderToken_spec hgrant
    exact hgrants.present ((Heap.SameLists.setToken ..).present hp)
  | grant l _ _ _ hgrant =>
    obtain ⟨holder, _, hgrants⟩ := tkm_GrantHolderToken_spec hgrant
    exact hgrants.present ((Heap.SameLists.setToken ..).present hp)
  | drop l _ hdrop => exact (dropTypes_spec hdrop).1.present hp
  | recycle l _ _ hreturn =>
    obtain ⟨holder, _, hreturns⟩ := tkm_ReturnHolderToken_spec hreturn
    exact hreturns.present hp
  | touch h l q => exact (Heap.SameLists.setToken ..).present hp
  | adjust h l => exact (Heap.SameLists.setToken ..).present hp
  | host h l f host =>
    refine hp.lift (fun holder => ?_) (fun shelf => ?_) id
    · rcases holder with g | v
      · by_cases hg : g = f <;> simp [Heap.granted, Heap.setFile, hg]
      · exact List.Subset.refl _
    · rcases shelf with (g | v) | v
      · by_cases hg : g = f <;> simp [Heap.shelf, Heap.setFile, hg]
      · exact List.Subset.refl _
      · exact List.Subset.refl _
  | shelve h shelf q l =>
    refine Heap.present_setShelf (fun r hr => ?_) hp
    simp only [List.mem_cons] at hr ⊢
    tauto
  | @unqueue h holder q l hq =>
    exact Heap.present_setShelf (fun r hr => mem_erase_or_cons hr) hp
  | @unbeing h v q l hq =>
    exact Heap.present_setShelf (fun r hr => mem_erase_or_cons hr) hp
  | perm h hperm => exact hp.lift (fun _ => List.Subset.refl _) (fun _ => List.Subset.refl _) fun hr => hr.imp_right hperm.mem_iff.mp
  | forget => exact absurd rfl hk

theorem Prim.present_new {k : Kind} (hprim : Prim L k a b)
    (hlow : a.1.allocated ≤ p) (hhigh : p < b.1.allocated) : Present b p := by
  have hsame : b.1.allocated = a.1.allocated → Present b p := fun heq =>
    absurd (heq ▸ hhigh) (Nat.not_lt.mpr hlow)
  cases hprim with
  | alloc h l =>
    have heq : p = h.allocated := Nat.le_antisymm (Nat.lt_succ_iff.mp hhigh) hlow
    exact .inl (heq ▸ List.mem_cons_self)
  | take l htake =>
    refine hsame ?_
    obtain ⟨-, -, rfl⟩ := tkm_GetFreeToken_spec htake
    rfl
  | slice l _ _ _ _ _ _ hgrant =>
    obtain ⟨holder, _, hgrants⟩ := tkm_GrantHolderToken_spec hgrant
    exact hsame hgrants.allocated
  | grant l _ _ _ hgrant =>
    obtain ⟨holder, _, hgrants⟩ := tkm_GrantHolderToken_spec hgrant
    exact hsame hgrants.allocated
  | drop l _ hdrop => exact hsame (dropTypes_spec hdrop).1.allocated
  | recycle l _ _ hreturn =>
    obtain ⟨holder, _, hreturns⟩ := tkm_ReturnHolderToken_spec hreturn
    exact hsame hreturns.allocated
  | shelve => exact hsame (by simp)
  | unqueue => exact hsame (by simp)
  | unbeing => exact hsame (by simp)
  | _ => exact hsame rfl

theorem Chain.present (hchain : Chain L ok a b) (hok : ¬ok .leak)
    (hp : Present a p ∨ a.1.allocated ≤ p ∧ p < b.1.allocated) : Present b p := by
  induction hchain with
  | refl => exact hp.elim id fun ⟨hlow, hhigh⟩ => absurd hhigh (Nat.not_lt.mpr hlow)
  | @tail b c _ hprim ih =>
    obtain ⟨k, hk, hprim⟩ := hprim
    have hleak : k ≠ .leak := fun h => hok (h ▸ hk)
    by_cases hold : p < b.1.allocated
    · exact hprim.present hleak (ih (hp.imp_right fun hp => ⟨hp.1, hold⟩))
    · rcases hp with hp | hp
      · exact hprim.present hleak (ih (.inl hp))
      · exact hprim.present_new (Nat.not_lt.mp hold) hp.2

/-- Every token structure that was ever allocated is in exactly one place, and there once. -/
structure State.Conserved (s : State φ ν τ) : Prop where
  place : ∀ p < s.heap.allocated, ∃! place, p ∈ contents s.heap s.locals place
  nodup : ∀ place, (contents s.heap s.locals place).Nodup

/-- A step with which the token manager forgets token structures. -/
def State.leaks (s : State φ ν τ) (i : τ × Action φ ν) : Prop := (s.thread i.1).leaks s.heap i.2

instance (s : State φ ν τ) (i : τ × Action φ ν) : Decidable (s.leaks i) :=
  inferInstanceAs (Decidable ((s.thread i.1).leaks s.heap i.2))

/-- The token manager as long as it forgets no token structure. -/
def leakless (L : Layout φ ν) (τ : Type) [DecidableEq τ] : System (State φ ν τ) (τ × Action φ ν) :=
  (tokenManager L τ).restrict fun s i => ¬s.leaks i

theorem State.Good.complete (hgood : s.Good) (hleak : ¬s.leaks i)
    (hcomplete : ∀ p < s.heap.allocated, ∃ place, p ∈ contents s.heap s.locals place)
    (hstep : (tokenManager L τ).step s i = some s') (hp : p < s'.heap.allocated) :
    ∃ place, p ∈ contents s'.heap s'.locals place := by
  obtain ⟨t, action⟩ := i
  have hnext : s.Next L (· ≠ .leak) t s' :=
    hgood.next (by simp) (by simp) (by simp) (fun _ _ => by simp) (fun _ => by simp) (fun h => absurd h hleak) hstep
  have hpresent : Present (s.heap, s.locals t) p ∨ (s.heap.allocated ≤ p ∧ p < s'.heap.allocated) ∨
      ∃ t', t' ≠ t ∧ p ∈ s.locals t' := by
    by_cases hold : p < s.heap.allocated
    · obtain ⟨_ | holder | shelf | t', hplace⟩ := hcomplete p hold
      · exact .inl (.inl hplace)
      · exact .inl (.inr (.inl ⟨holder, hplace⟩))
      · exact .inl (.inr (.inr (.inl ⟨shelf, hplace⟩)))
      · by_cases ht : t' = t
        · exact .inl (.inr (.inr (.inr (ht ▸ hplace))))
        · exact .inr (.inr ⟨t', ht, hplace⟩)
    · exact .inr (.inl ⟨Nat.not_lt.mp hold, hp⟩)
  rw [← or_assoc] at hpresent
  rcases hpresent with hpresent | ⟨t', ht, hmem⟩
  · obtain hp | ⟨holder, hp⟩ | ⟨shelf, hp⟩ | hp := hnext.chain.present (by simp) hpresent
    · exact ⟨.free, hp⟩
    · exact ⟨.granted holder, hp⟩
    · exact ⟨.shelf shelf, hp⟩
    · exact ⟨.thread t, hp⟩
  · refine ⟨.thread t', ?_⟩
    rwa [contents, State.locals, hnext.thread t' ht]

/-- As long as no step forgets token structures, they are conserved. -/
theorem tokens_conserved (hreach : (leakless L τ).Reachable s) : s.Conserved := by
  have hinv : s.Good ∧ ∀ p < s.heap.allocated, ∃ place, p ∈ contents s.heap s.locals place := by
    refine hreach.invariant (P := fun s => s.Good ∧ ∀ p < s.heap.allocated, ∃ place, p ∈ contents s.heap s.locals place)
      (fun s hinit => ?_) fun s i s' ⟨hgood, hcomplete⟩ hstep => ?_
    · obtain ⟨⟨_, hheap⟩, hidle⟩ := hinit
      exact ⟨.init hheap hidle, by simp [hheap, Heap.init]⟩
    · obtain ⟨hleak, hstep⟩ := System.restrict_step hstep
      exact ⟨hgood.step hstep, fun p => hgood.complete hleak hcomplete hstep⟩
  obtain ⟨hgood, hcomplete⟩ := hinv
  refine ⟨fun p hp => ?_, hgood.sound.apart.nodup⟩
  obtain ⟨place, hplace⟩ := hcomplete p hp
  exact ⟨place, hplace, fun _ hother => hgood.sound.apart.unique hother hplace⟩

def oneFile : Layout Unit Unit := ⟨fun _ => (), fun _ => [()], fun _ => false, by decide, by decide⟩

def fresh : State Unit Unit Unit := ⟨Heap.init 0, fun _ => .idle⟩

open TokenType in
def requestQueued : List (Unit × Action Unit Unit) :=
  [.moreTokens 2, .tkm_GetToken (.file ()) {TKM_STATUS_WRITE} ⟨0, 100⟩ 1 false false false, .run,
    .tkm_GetToken (.file ()) {TKM_STATUS_WRITE} ⟨0, 100⟩ 2 true false false, .run, .preProcess false false,
    .preProcess false false, .run, .run, .answer 0 ⟨true, {TKM_STATUS_WRITE}, ∅, ∅⟩, .run, .run].map (Prod.mk ())

def attemptFails : List (Unit × Action Unit Unit) :=
  [.tryAsyncGrant (.file ()) 0, .run, .preProcess false false, .preProcess false false, .run, .run,
    .callFailed 0 true, .run, .run].map (Prod.mk ())

theorem tokens_conserved_requestQueued :
    ∃ s : State Unit Unit Unit, (s.heap.file ()).queued = [0] ∧ s.heap.allocated = 2 ∧ s.Conserved := by
  obtain ⟨s, hreach, hs⟩ := (leakless oneFile Unit).exists_reachable_of_exec requestQueued (s := fresh)
    (P := fun s => (s.heap.file ()).queued == [0] && s.heap.allocated == 2) ⟨⟨0, rfl⟩, fun _ => rfl⟩ (by decide +kernel)
  simp only [Bool.and_eq_true, beq_iff_eq] at hs
  exact ⟨s, hs.1, hs.2, tokens_conserved hreach⟩

/-- After the failed attempt the token of the queued request is in no place. -/
theorem token_forgotten :
    ∃ s : State Unit Unit Unit, (tokenManager oneFile Unit).Reachable s ∧ ¬s.Conserved := by
  obtain ⟨s, hreach, hs⟩ := (tokenManager oneFile Unit).exists_reachable_of_exec (requestQueued ++ attemptFails)
    (s := fresh) (P := fun s => decide (0 < s.heap.allocated ∧ 0 ∉ s.heap.freeTokens ∧
      0 ∉ (s.heap.file ()).granted.list ∧ 0 ∉ (s.heap.volume ()).granted.list ∧ 0 ∉ (s.heap.file ()).queued ∧
      0 ∉ (s.heap.volume ()).queuedFileTokens ∧ 0 ∉ (s.heap.volume ()).beingGranted ∧ 0 ∉ s.locals ()))
    ⟨⟨0, rfl⟩, fun _ => rfl⟩ (by decide +kernel)
  obtain ⟨hallocated, hfree, hfile, hvolume, hqueued, hfiles, hbeing, hlocals⟩ := of_decide_eq_true hs
  refine ⟨s, hreach, fun hconserved => ?_⟩
  obtain ⟨place, hplace, _⟩ := hconserved.place 0 hallocated
  rcases place with _ | (_ | _) | ((_ | _) | _) | _
  · exact hfree hplace
  · exact hfile hplace
  · exact hvolume hplace
  · exact hqueued hplace
  · exact hfiles hplace
  · exact hbeing hplace
  · exact hlocals hplace

/-- Whatever happens, also in steps that forget token structures, none is in two places or twice in one. A structure in use has an
id that no other one has, and those that are referred to or being granted are in the list of their holder. -/
theorem token_structures_apart (L : Layout φ ν) (s : State φ ν τ) (hreach : (tokenManager L τ).Reachable s) :
    (∀ p place place', p ∈ contents s.heap s.locals place → p ∈ contents s.heap s.locals place' → place = place') ∧
    (∀ place, (contents s.heap s.locals place).Nodup) ∧
    (∀ place, place ≠ .free → ∀ p ∈ contents s.heap s.locals place, (s.heap.token p).id ≠ 0 ∧
      ∀ q, (s.heap.token q).id = (s.heap.token p).id → q = p) ∧
    (∀ holder, ∀ p ∈ s.heap.granted holder, (s.heap.token p).holder = some holder) ∧
    ∀ p, (s.heap.token p).refcount ≠ 0 ∨ (s.heap.token p).granting = true ∧ (s.heap.token p).id ≠ 0 →
      ∃ holder, p ∈ s.heap.granted holder := by
  have hgood : s.Good :=
    hreach.invariant (fun s ⟨⟨_, hheap⟩, hidle⟩ => .init hheap hidle) fun _ _ _ hgood hstep => hgood.step hstep
  have hsound := hgood.sound
  refine ⟨fun p place place' hp hp' => hsound.apart.unique hp hp', hsound.apart.nodup, fun place hplace p hp => ?_,
    hsound.holder, fun p hp => ?_⟩
  · have hid := hsound.named place hplace p hp
    exact ⟨hid, fun q hq => hsound.distinct q p hq (hq ▸ hid)⟩
  · exact hp.elim (hsound.held p) fun ⟨hgranting, hid⟩ => hsound.granting p hgranting hid

theorem token_structures_apart_forgotten :
    ∃ s : State Unit Unit Unit, s.heap.allocated = 2 ∧ (∀ place, (contents s.heap s.locals place).Nodup) := by
  obtain ⟨s, hreach, hs⟩ := (tokenManager oneFile Unit).exists_reachable_of_exec (requestQueued ++ attemptFails)
    (s := fresh) (P := fun s => s.heap.allocated == 2) ⟨⟨0, rfl⟩, fun _ => rfl⟩ (by decide +kernel)
  exact ⟨s, beq_iff_eq.mp hs, (token_structures_apart oneFile s hreach).2.1⟩

end dce.tkm
