import Dce.Epi.Tran

open lib

namespace dce.episode.trans

/-- The equivalence classes of transactions: who points at whom, who is in whose list, how many are counted, what has become of
each, which have been merged, and where each one ended. -/
@[ext]
structure Classes (P : Type) where
  head : ℕ → ℕ
  list : ℕ → List ℕ
  size : ℕ → ℕ
  status : ℕ → TranStatus
  merges : List (ℕ × ℕ)
  place : ℕ → P

namespace Classes

variable {P : Type} (c : Classes P)

def Existing (x : ℕ) : Prop := c.status x ≠ .FREE

def Unfinished (x : ℕ) : Prop := c.status x = .ACTIVE ∨ c.status x = .PENDING

def actives (l : List ℕ) : ℕ := l.countP fun x => c.status x = .ACTIVE

def Same (x y : ℕ) : Prop := ∃ r, RootOf c.head x r ∧ RootOf c.head y r

def Related : ℕ → ℕ → Prop := Relation.EqvGen fun x y => (x, y) ∈ c.merges

structure Valid : Prop where
  closed : ∀ x, c.Existing x → c.Existing (c.head x)
  rooted : ∀ x, c.Existing x → ∃ r, RootOf c.head x r
  finished : ∀ x, c.Existing x → (c.status (c.head x) = .COMPLETE ↔ c.status x = .COMPLETE)
  place : ∀ x, c.status x = .COMPLETE → c.place (c.head x) = c.place x
  nodup : ∀ r, c.head r = r → c.Unfinished r → (c.list r).Nodup
  members : ∀ r, c.head r = r → c.Unfinished r → ∀ x, x ∈ c.list r ↔ x ≠ r ∧ c.Existing x ∧ RootOf c.head x r
  sizes : ∀ r, c.head r = r → c.Unfinished r → c.size r = c.actives (r :: c.list r)
  positive : ∀ r, c.head r = r → c.Unfinished r → 0 < c.size r
  done : ∀ r, c.head r = r → c.status r = .COMPLETE → c.list r = [] ∧ c.size r = 0
  sound : ∀ x y, (x, y) ∈ c.merges → (c.Existing x ↔ c.Existing y) ∧ (c.Existing x → c.Same x y)
  complete : ∀ x r, c.Existing x → RootOf c.head x r → c.Related x r

variable {c}

theorem unfinished_iff {x : ℕ} : c.Unfinished x ↔ c.Existing x ∧ c.status x ≠ .COMPLETE := by
  unfold Unfinished Existing
  cases c.status x <;> simp

namespace Valid

variable {x y r r' : ℕ} (h : c.Valid)

include h

theorem existing_root (hx : c.Existing x) (hr : RootOf c.head x r) : c.Existing r := hr.closed h.closed hx

theorem finished_root (hx : c.Existing x) (hr : RootOf c.head x r) : c.status r = .COMPLETE ↔ c.status x = .COMPLETE := by
  induction hr with
  | root _ => exact Iff.rfl
  | step _ _ ih => exact (ih (h.closed _ hx)).trans (h.finished _ hx)

theorem unfinished_root (hx : c.Unfinished x) (hr : RootOf c.head x r) : c.Unfinished r := by
  obtain ⟨hexists, hnot⟩ := unfinished_iff.mp hx
  exact unfinished_iff.mpr ⟨h.existing_root hexists hr, fun hr' => hnot ((h.finished_root hexists hr).mp hr')⟩

theorem related (hrel : c.Related x y) : (c.Existing x ↔ c.Existing y) ∧ (c.Existing x → c.Same x y) := by
  induction hrel with
  | rel x y hxy => exact h.sound x y hxy
  | refl x =>
    refine ⟨Iff.rfl, fun hx => ?_⟩
    obtain ⟨r, hr⟩ := h.rooted x hx
    exact ⟨r, hr, hr⟩
  | symm x y _ ih =>
    refine ⟨ih.1.symm, fun hy => ?_⟩
    obtain ⟨r, hxr, hyr⟩ := ih.2 (ih.1.mpr hy)
    exact ⟨r, hyr, hxr⟩
  | trans x y z _ _ ih₁ ih₂ =>
    refine ⟨ih₁.1.trans ih₂.1, fun hx => ?_⟩
    obtain ⟨r, hxr, hyr⟩ := ih₁.2 hx
    obtain ⟨r', hyr', hzr'⟩ := ih₂.2 (ih₁.1.mp hx)
    exact ⟨r, hxr, hyr.unique hyr' ▸ hzr'⟩

theorem same_iff (hx : c.Existing x) (hy : c.Existing y) : c.Same x y ↔ c.Related x y := by
  constructor
  · rintro ⟨r, hxr, hyr⟩
    exact (h.complete x r hx hxr).trans _ _ _ ((h.complete y r hy hyr).symm _ _)
  · exact fun hrel => (h.related hrel).2 hx

end Valid

theorem Valid.rootOf_congr (h : c.Valid) {head' : ℕ → ℕ} (hhead : ∀ y, c.Existing y → head' y = c.head y) {x r : ℕ}
    (hx : c.Existing x) : RootOf head' x r ↔ RootOf c.head x r := by
  have hto : ∀ r, RootOf c.head x r → RootOf head' x r := fun r hr => hr.congr h.closed hhead hx
  constructor
  · intro hr
    obtain ⟨r', hr'⟩ := h.rooted x hx
    rwa [hr.unique (hto r' hr')]
  · exact hto r

theorem Valid.mem_class (h : c.Valid) {x r : ℕ} (hr : c.head r = r) (hunfinished : c.Unfinished r) :
    x ∈ r :: c.list r ↔ c.Existing x ∧ RootOf c.head x r := by
  rw [List.mem_cons, h.members r hr hunfinished]
  constructor
  · rintro (rfl | ⟨-, hx, hxr⟩)
    · exact ⟨(unfinished_iff.mp hunfinished).1, .root hr⟩
    · exact ⟨hx, hxr⟩
  · rintro ⟨hx, hxr⟩
    by_cases hne : x = r
    · exact .inl hne
    · exact .inr ⟨hne, hx, hxr⟩

theorem Valid.nodup_class (h : c.Valid) {r : ℕ} (hr : c.head r = r) (hunfinished : c.Unfinished r) :
    (r :: c.list r).Nodup :=
  List.nodup_cons.mpr ⟨fun hmem => ((h.members r hr hunfinished r).mp hmem).1 rfl, h.nodup r hr hunfinished⟩

theorem actives_congr {c' : Classes P} {l : List ℕ} (h : ∀ x ∈ l, c'.status x = c.status x) : c'.actives l = c.actives l :=
  List.countP_congr fun x hx => by rw [h x hx]

/-- What the record of the root `r` says about its class. -/
structure ClassAt (c : Classes P) (r : ℕ) : Prop where
  nodup : (c.list r).Nodup
  members : ∀ x, x ∈ c.list r ↔ x ≠ r ∧ c.Existing x ∧ RootOf c.head x r
  size : c.size r = c.actives (r :: c.list r)
  positive : 0 < c.size r

theorem Valid.classAt (h : c.Valid) {r : ℕ} (hr : c.head r = r) (hunfinished : c.Unfinished r) : c.ClassAt r :=
  ⟨h.nodup r hr hunfinished, h.members r hr hunfinished, h.sizes r hr hunfinished, h.positive r hr hunfinished⟩

theorem ClassAt.congr {r : ℕ} (h : c.ClassAt r) {c' : Classes P} (hlist : c'.list r = c.list r) (hsize : c'.size r = c.size r)
    (hmem : ∀ x, c'.Existing x ∧ RootOf c'.head x r ↔ c.Existing x ∧ RootOf c.head x r)
    (hstatus : ∀ x ∈ r :: c.list r, c'.status x = c.status x) : c'.ClassAt r where
  nodup := hlist ▸ h.nodup
  members x := by rw [hlist, h.members, hmem]
  size := by rw [hlist, hsize, h.size, actives_congr hstatus]
  positive := hsize ▸ h.positive

/-- The merges among what has not been started anew. -/
def without (i : ℕ) (merges : List (ℕ × ℕ)) : List (ℕ × ℕ) := merges.filter fun p => p.1 ≠ i ∧ p.2 ≠ i

theorem mem_without {i x y : ℕ} {merges : List (ℕ × ℕ)} : (x, y) ∈ without i merges ↔ (x, y) ∈ merges ∧ x ≠ i ∧ y ≠ i := by
  rw [without, List.mem_filter, decide_eq_true_eq]

def start (c : Classes P) (i : ℕ) (p : P) : Classes P where
  head := Function.update c.head i i
  list := Function.update c.list i []
  size := Function.update c.size i 1
  status := Function.update c.status i .ACTIVE
  merges := without i c.merges
  place := Function.update c.place i p

theorem Valid.renew (h : c.Valid) {i : ℕ} (hfree : c.status i = .FREE) {c' : Classes P} (hsame : ∀ {x}, x ≠ i →
      c'.head x = c.head x ∧ c'.list x = c.list x ∧ c'.size x = c.size x ∧ c'.place x = c.place x ∧ c'.status x = c.status x)
    (hmerges : c'.merges = without i c.merges)
    (hi : c'.status i = .FREE ∨ c'.status i = .ACTIVE ∧ c'.head i = i ∧ c'.list i = [] ∧ c'.size i = 1) : c'.Valid := by
  have hne : ∀ {x}, c.Existing x → x ≠ i := fun hx hxi => hx (hxi ▸ hfree)
  have hhead : ∀ {x}, x ≠ i → c'.head x = c.head x := fun hx => (hsame hx).1
  have hlist : ∀ {x}, x ≠ i → c'.list x = c.list x := fun hx => (hsame hx).2.1
  have hsize : ∀ {x}, x ≠ i → c'.size x = c.size x := fun hx => (hsame hx).2.2.1
  have hstatus : ∀ {x}, x ≠ i → c'.status x = c.status x := fun hx => (hsame hx).2.2.2.2
  have halone : c'.Existing i → c'.status i = .ACTIVE ∧ c'.head i = i ∧ c'.list i = [] ∧ c'.size i = 1 := hi.resolve_left
  have hold : ∀ {x}, c'.Existing x → x ≠ i → c.Existing x := fun hx hxi hxfree => hx ((hstatus hxi).trans hxfree)
  have hkept : ∀ {x}, c.Existing x → c'.Existing x := fun hx hxfree => hx ((hstatus (hne hx)).symm.trans hxfree)
  have hrootOf : ∀ {x r}, c.Existing x → (RootOf c'.head x r ↔ RootOf c.head x r) := fun hx =>
    h.rootOf_congr (fun y hy => hhead (hne hy)) hx
  have hunf : ∀ {x}, c'.Unfinished x → x ≠ i → c.Unfinished x := fun hx hxi => by
    simpa only [Unfinished, hstatus hxi] using hx
  have hdone : ∀ {x}, c'.status x = .COMPLETE → x ≠ i ∧ c.status x = .COMPLETE := by
    intro x hx
    have hxi : x ≠ i := by
      rintro rfl
      rcases hi with hi | ⟨hi, -⟩ <;> exact absurd (hi.symm.trans hx) (by decide)
    exact ⟨hxi, (hstatus hxi).symm.trans hx⟩
  have hrelated : ∀ {x y}, c.Existing x → c.Related x y → c'.Related x y := by
    intro x y hx hrel
    induction hrel with
    | rel x y hxy => exact .rel _ _ (hmerges ▸ mem_without.mpr ⟨hxy, hne hx, hne ((h.sound x y hxy).1.mp hx)⟩)
    | refl x => exact .refl x
    | symm x y hrel ih => exact (ih ((h.related hrel).1.mpr hx)).symm
    | trans x y z hxy _ ih₁ ih₂ => exact (ih₁ hx).trans _ _ _ (ih₂ ((h.related hxy).1.mp hx))
  have hclass : ∀ r, c'.head r = r → c'.Unfinished r → c'.ClassAt r := by
    intro r hr hrunf
    by_cases hri : r = i
    · subst hri
      obtain ⟨hactive, -, hnil, hone⟩ := halone (unfinished_iff.mp hrunf).1
      refine ⟨hnil ▸ List.nodup_nil, fun x => ?_, ?_, hone ▸ Nat.one_pos⟩
      · rw [hnil]
        refine ⟨fun hx => absurd hx List.not_mem_nil, ?_⟩
        rintro ⟨hxr, hx, hroot⟩
        have hx := hold hx hxr
        exact absurd (h.existing_root hx ((hrootOf hx).mp hroot)) (not_not.mpr hfree)
      · rw [hnil, hone, actives, List.countP_singleton, hactive]
        rfl
    · rw [hhead hri] at hr
      have hrunf := hunf hrunf hri
      refine (h.classAt hr hrunf).congr (hlist hri) (hsize hri) (fun x => ?_) fun x hx =>
        hstatus (hne ((h.mem_class hr hrunf).mp hx).1)
      constructor
      · rintro ⟨hx, hroot⟩
        have hxi : x ≠ i := by
          rintro rfl
          exact hri ((RootOf.self_iff (halone hx).2.1).mp hroot)
        exact ⟨hold hx hxi, (hrootOf (hold hx hxi)).mp hroot⟩
      · rintro ⟨hx, hroot⟩
        exact ⟨hkept hx, (hrootOf hx).mpr hroot⟩
  constructor
  case closed =>
    intro x hx
    by_cases hxi : x = i
    · subst hxi
      rwa [(halone hx).2.1]
    · rw [hhead hxi]
      exact hkept (h.closed x (hold hx hxi))
  case rooted =>
    intro x hx
    by_cases hxi : x = i
    · subst hxi
      exact ⟨x, .root (halone hx).2.1⟩
    · obtain ⟨r, hr⟩ := h.rooted x (hold hx hxi)
      exact ⟨r, (hrootOf (hold hx hxi)).mpr hr⟩
  case finished =>
    intro x hx
    by_cases hxi : x = i
    · subst hxi
      rw [(halone hx).2.1]
    · have hx := hold hx hxi
      rw [hhead hxi, hstatus hxi, hstatus (hne (h.closed x hx))]
      exact h.finished x hx
  case place =>
    intro x hx
    obtain ⟨hxi, hx⟩ := hdone hx
    have hexists : c.Existing x := fun hxfree => absurd (hx.symm.trans hxfree) (by decide)
    rw [hhead hxi, (hsame hxi).2.2.2.1, (hsame (hne (h.closed x hexists))).2.2.2.1]
    exact h.place x hx
  case nodup => exact fun r hr hunf => (hclass r hr hunf).nodup
  case members => exact fun r hr hunf => (hclass r hr hunf).members
  case sizes => exact fun r hr hunf => (hclass r hr hunf).size
  case positive => exact fun r hr hunf => (hclass r hr hunf).positive
  case done =>
    intro r hr hrdone
    obtain ⟨hri, hrdone⟩ := hdone hrdone
    rw [hhead hri] at hr
    rw [hlist hri, hsize hri]
    exact h.done r hr hrdone
  case sound =>
    intro x y hxy
    obtain ⟨hxy, hxi, hyi⟩ := mem_without.mp (hmerges ▸ hxy)
    obtain ⟨hiff, hsame⟩ := h.sound x y hxy
    refine ⟨⟨fun hx => hkept (hiff.mp (hold hx hxi)), fun hy => hkept (hiff.mpr (hold hy hyi))⟩, fun hx => ?_⟩
    obtain ⟨r, hxr, hyr⟩ := hsame (hold hx hxi)
    exact ⟨r, (hrootOf (hold hx hxi)).mpr hxr, (hrootOf (hiff.mp (hold hx hxi))).mpr hyr⟩
  case complete =>
    intro x r hx hroot
    by_cases hxi : x = i
    · subst hxi
      rw [(RootOf.self_iff (halone hx).2.1).mp hroot]
      exact .refl x
    · exact hrelated (hold hx hxi) (h.complete x r (hold hx hxi) ((hrootOf (hold hx hxi)).mp hroot))

theorem Valid.start (h : c.Valid) {i : ℕ} (hfree : c.status i = .FREE) (p : P) : (c.start i p).Valid :=
  h.renew hfree (fun hx => ⟨Function.update_of_ne hx .., Function.update_of_ne hx .., Function.update_of_ne hx ..,
      Function.update_of_ne hx .., Function.update_of_ne hx ..⟩) rfl
    (.inr ⟨Function.update_self .., Function.update_self .., Function.update_self .., Function.update_self ..⟩)

theorem Valid.blank (h : c.Valid) {i : ℕ} (hfree : c.status i = .FREE) {c' : Classes P} (hhead : ∀ x, x ≠ i → c'.head x = c.head x)
    (hlist : ∀ x, x ≠ i → c'.list x = c.list x) (hsize : ∀ x, x ≠ i → c'.size x = c.size x)
    (hplace : ∀ x, x ≠ i → c'.place x = c.place x) (hstatus : c'.status = c.status) (hmerges : c'.merges = without i c.merges) :
    c'.Valid :=
  h.renew hfree (fun hx => ⟨hhead _ hx, hlist _ hx, hsize _ hx, hplace _ hx, congrFun hstatus _⟩) hmerges
    (.inl ((congrFun hstatus i).trans hfree))

/-- An active transaction becomes pending, and its class has one active member less. -/
def pend (c : Classes P) (t r : ℕ) : Classes P :=
  { c with status := Function.update c.status t .PENDING, size := Function.update c.size r (c.size r - 1) }

theorem actives_cons (x : ℕ) (l : List ℕ) : c.actives (x :: l) = c.actives l + if c.status x = .ACTIVE then 1 else 0 := by
  rw [actives, List.countP_cons]
  simp only [actives, decide_eq_true_eq]

theorem actives_append (l l' : List ℕ) : c.actives (l ++ l') = c.actives l + c.actives l' := List.countP_append ..

theorem actives_update {l : List ℕ} {t : ℕ} (hnodup : l.Nodup) (hmem : t ∈ l) (hactive : c.status t = .ACTIVE) {s : TranStatus}
    (hs : s ≠ .ACTIVE) : ({ c with status := Function.update c.status t s } : Classes P).actives l + 1 = c.actives l := by
  have hother : ∀ {x}, x ≠ t → Function.update c.status t s x = c.status x := fun hx => Function.update_of_ne hx ..
  induction l with
  | nil => exact absurd hmem List.not_mem_nil
  | cons x l ih =>
    obtain ⟨hx, hnodup⟩ := List.nodup_cons.mp hnodup
    rw [actives_cons, actives_cons]
    by_cases hxt : x = t
    · subst hxt
      have hl : ∀ y ∈ l, Function.update c.status x s y = c.status y := fun y hy => hother fun hyx => hx (hyx ▸ hy)
      rw [@actives_congr P c { c with status := Function.update c.status x s } l hl]
      have hgone : Function.update c.status x s x ≠ .ACTIVE := by rwa [Function.update_self]
      rw [if_pos hactive, if_neg hgone]
    · have hrest := ih hnodup ((List.mem_cons.mp hmem).resolve_left (Ne.symm hxt))
      change _ + (if Function.update c.status t s x = .ACTIVE then 1 else 0) + 1 = _
      rw [hother hxt]
      omega

theorem Valid.pend (h : c.Valid) {t r : ℕ} (hactive : c.status t = .ACTIVE) (hroot : RootOf c.head t r) (hsize : 1 < c.size r) :
    (c.pend t r).Valid := by
  have hstatus : ∀ {x}, x ≠ t → (c.pend t r).status x = c.status x := fun hx => Function.update_of_ne hx ..
  have hstatust : (c.pend t r).status t = .PENDING := Function.update_self ..
  have hcomplete : ∀ {x}, (c.pend t r).status x = .COMPLETE ↔ c.status x = .COMPLETE := by
    intro x
    by_cases hx : x = t
    · rw [hx, hstatust, hactive]
      decide
    · rw [hstatus hx]
  have hexisting : ∀ {x}, (c.pend t r).Existing x ↔ c.Existing x := by
    intro x
    by_cases hx : x = t
    · rw [hx, Existing, Existing, hstatust, hactive]
      decide
    · rw [Existing, Existing, hstatus hx]
  have hunfinished : ∀ {x}, (c.pend t r).Unfinished x ↔ c.Unfinished x := by
    intro x
    rw [unfinished_iff, unfinished_iff, hexisting, Ne, hcomplete]
  have hext : c.Existing t := (unfinished_iff.mp (.inl hactive)).1
  have hrunf : c.Unfinished r := h.unfinished_root (.inl hactive) hroot
  have hclass : ∀ r', c.head r' = r' → c.Unfinished r' → (c.pend t r).ClassAt r' := by
    intro r' hr' hunf
    by_cases hrr' : r' = r
    · subst hrr'
      have hmem := (h.mem_class hr' hunf).mpr ⟨hext, hroot⟩
      have hcount := actives_update (h.nodup_class hr' hunf) hmem hactive (s := .PENDING) (by decide)
      have hless : (c.pend t r').size r' = c.size r' - 1 := Function.update_self ..
      rw [← h.sizes r' hr' hunf] at hcount
      refine ⟨h.nodup r' hr' hunf, fun x => ?_, ?_, by omega⟩
      · rw [hexisting]
        exact h.members r' hr' hunf x
      · rw [hless, ← hcount]
        rfl
    · refine (h.classAt hr' hunf).congr rfl (Function.update_of_ne hrr' ..) (fun x => and_congr_left fun _ => hexisting)
        fun x hx => hstatus ?_
      rintro rfl
      exact hrr' (((h.mem_class hr' hunf).mp hx).2.unique hroot)
  constructor
  case closed => exact fun x hx => hexisting.mpr (h.closed x (hexisting.mp hx))
  case rooted => exact fun x hx => h.rooted x (hexisting.mp hx)
  case finished => exact fun x hx => (hcomplete.trans (h.finished x (hexisting.mp hx))).trans hcomplete.symm
  case place => exact fun x hx => h.place x (hcomplete.mp hx)
  case nodup => exact fun r hr hunf => (hclass r hr (hunfinished.mp hunf)).nodup
  case members => exact fun r hr hunf => (hclass r hr (hunfinished.mp hunf)).members
  case sizes => exact fun r hr hunf => (hclass r hr (hunfinished.mp hunf)).size
  case positive => exact fun r hr hunf => (hclass r hr (hunfinished.mp hunf)).positive
  case done =>
    intro r' hr' hdone
    have hrr' : r' ≠ r := by
      rintro rfl
      exact (unfinished_iff.mp hrunf).2 (hcomplete.mp hdone)
    have hsame : (c.pend t r).size r' = c.size r' := Function.update_of_ne hrr' ..
    rw [hsame]
    exact h.done r' hr' (hcomplete.mp hdone)
  case sound =>
    intro x y hxy
    rw [hexisting, hexisting]
    exact h.sound x y hxy
  case complete => exact fun x r hx hr => h.complete x r (hexisting.mp hx) hr

/-- All members of a class are complete, at one place. -/
def finish (c : Classes P) (r : ℕ) (p : P) : Classes P :=
  { c with
    list := Function.update c.list r []
    size := Function.update c.size r 0
    status := fun x => if x ∈ r :: c.list r then .COMPLETE else c.status x
    place := fun x => if x ∈ r :: c.list r then p else c.place x }

theorem Valid.finish (h : c.Valid) {r : ℕ} (hr : c.head r = r) (hunf : c.Unfinished r) (p : P) : (c.finish r p).Valid := by
  have hin : ∀ {x}, x ∈ r :: c.list r → (c.finish r p).status x = .COMPLETE := fun hx => if_pos hx
  have hout : ∀ {x}, x ∉ r :: c.list r → (c.finish r p).status x = c.status x := fun hx => if_neg hx
  have hexisting : ∀ {x}, (c.finish r p).Existing x ↔ c.Existing x := by
    intro x
    by_cases hx : x ∈ r :: c.list r
    · have hex := ((h.mem_class hr hunf).mp hx).1
      refine ⟨fun _ => hex, fun _ => ?_⟩
      rw [Existing, hin hx]
      decide
    · rw [Existing, Existing, hout hx]
  have hunfinished : ∀ {x}, (c.finish r p).Unfinished x ↔ c.Unfinished x ∧ x ∉ r :: c.list r := by
    intro x
    by_cases hx : x ∈ r :: c.list r
    · rw [unfinished_iff, hin hx]
      exact ⟨fun hnot => absurd rfl hnot.2, fun hnot => absurd hx hnot.2⟩
    · rw [Unfinished, hout hx]
      exact ⟨fun hxunf => ⟨hxunf, hx⟩, And.left⟩
  have hhead : ∀ {x}, c.Existing x → (c.head x ∈ r :: c.list r ↔ x ∈ r :: c.list r) := by
    intro x hx
    rw [h.mem_class hr hunf, h.mem_class hr hunf, RootOf.up_iff]
    exact and_congr_left fun _ => ⟨fun _ => hx, fun _ => h.closed x hx⟩
  have hclass : ∀ r', c.head r' = r' → (c.finish r p).Unfinished r' → (c.finish r p).ClassAt r' := by
    intro r' hr' hunf'
    obtain ⟨hunf', hnot⟩ := hunfinished.mp hunf'
    have hrr' : r' ≠ r := fun hrr' => hnot (hrr' ▸ List.mem_cons_self)
    refine (h.classAt hr' hunf').congr (Function.update_of_ne hrr' ..) (Function.update_of_ne hrr' ..)
      (fun x => and_congr_left fun _ => hexisting) fun x hx => hout fun hx' => hrr' ?_
    exact ((h.mem_class hr' hunf').mp hx).2.unique ((h.mem_class hr hunf).mp hx').2
  constructor
  case closed => exact fun x hx => hexisting.mpr (h.closed x (hexisting.mp hx))
  case rooted => exact fun x hx => h.rooted x (hexisting.mp hx)
  case finished =>
    intro x hx
    have hx := hexisting.mp hx
    change (c.finish r p).status (c.head x) = _ ↔ _
    by_cases hmem : x ∈ r :: c.list r
    · rw [hin hmem, hin ((hhead hx).mpr hmem)]
    · rw [hout hmem, hout fun hmem' => hmem ((hhead hx).mp hmem')]
      exact h.finished x hx
  case place =>
    intro x hx
    change (if c.head x ∈ r :: c.list r then p else c.place (c.head x)) = if x ∈ r :: c.list r then p else c.place x
    have hexists : c.Existing x := hexisting.mp fun hfree => absurd (hx.symm.trans hfree) (by decide)
    by_cases hmem : x ∈ r :: c.list r
    · rw [if_pos hmem, if_pos ((hhead hexists).mpr hmem)]
    · rw [if_neg hmem, if_neg fun hmem' => hmem ((hhead hexists).mp hmem')]
      rw [hout hmem] at hx
      exact h.place x hx
  case nodup => exact fun r hr hunf => (hclass r hr hunf).nodup
  case members => exact fun r hr hunf => (hclass r hr hunf).members
  case sizes => exact fun r hr hunf => (hclass r hr hunf).size
  case positive => exact fun r hr hunf => (hclass r hr hunf).positive
  case done =>
    intro r' hr' hdone
    by_cases hrr' : r' = r
    · rw [hrr']
      exact ⟨Function.update_self .., Function.update_self ..⟩
    · have hnot : r' ∉ r :: c.list r := fun hmem => hrr' (((h.mem_class hr hunf).mp hmem).2.unique (.root hr')).symm
      have hlist : (c.finish r p).list r' = c.list r' := Function.update_of_ne hrr' ..
      have hsize : (c.finish r p).size r' = c.size r' := Function.update_of_ne hrr' ..
      rw [hout hnot] at hdone
      rw [hlist, hsize]
      exact h.done r' hr' hdone
  case sound =>
    intro x y hxy
    rw [hexisting, hexisting]
    exact h.sound x y hxy
  case complete => exact fun x r hx hr => h.complete x r (hexisting.mp hx) hr

/-- Complete transactions are freed, whole classes at a time. -/
def free (c : Classes P) (S : ℕ → Bool) : Classes P := { c with status := fun x => if S x then .FREE else c.status x }

theorem Valid.free (h : c.Valid) {S : ℕ → Bool} (hdone : ∀ x, S x = true → c.status x = .COMPLETE)
    (hclass : ∀ x, c.Existing x → S (c.head x) = S x) : (c.free S).Valid := by
  have hin : ∀ {x}, S x = true → (c.free S).status x = .FREE := fun hx => if_pos hx
  have hout : ∀ {x}, ¬S x = true → (c.free S).status x = c.status x := fun hx => if_neg hx
  have hexisting : ∀ {x}, (c.free S).Existing x ↔ c.Existing x ∧ ¬S x = true := by
    intro x
    by_cases hx : S x = true
    · rw [Existing, hin hx]
      exact ⟨fun hnot => absurd rfl hnot, fun hnot => absurd hx hnot.2⟩
    · rw [Existing, Existing, hout hx]
      exact ⟨fun hxe => ⟨hxe, hx⟩, And.left⟩
  have hunfinished : ∀ {x}, (c.free S).Unfinished x ↔ c.Unfinished x := by
    intro x
    by_cases hx : S x = true
    · rw [Unfinished, Unfinished, hin hx, hdone x hx]
      decide
    · rw [Unfinished, Unfinished, hout hx]
  have hkept : ∀ {x}, c.Unfinished x → ¬S x = true := fun hunf hx => (unfinished_iff.mp hunf).2 (hdone _ hx)
  have hroot : ∀ {x r}, c.Existing x → RootOf c.head x r → S r = S x := by
    intro x r hx hroot
    induction hroot with
    | root _ => rfl
    | step _ _ ih => exact (ih (h.closed _ hx)).trans (hclass _ hx)
  have hclasses : ∀ r, c.head r = r → c.Unfinished r → (c.free S).ClassAt r := by
    intro r hr hunf
    have hkeep : ∀ {x}, c.Existing x → RootOf c.head x r → ¬S x = true := fun hx hxr => hroot hx hxr ▸ hkept hunf
    refine (h.classAt hr hunf).congr rfl rfl (fun x => ?_) fun x hx => ?_
    · rw [hexisting]
      constructor
      · rintro ⟨⟨hx, -⟩, hxr⟩
        exact ⟨hx, hxr⟩
      · rintro ⟨hx, hxr⟩
        exact ⟨⟨hx, hkeep hx hxr⟩, hxr⟩
    · obtain ⟨hx, hxr⟩ := (h.mem_class hr hunf).mp hx
      exact hout (hkeep hx hxr)
  constructor
  case closed =>
    intro x hx
    obtain ⟨hx, hnot⟩ := hexisting.mp hx
    exact hexisting.mpr ⟨h.closed x hx, by rwa [← hclass x hx] at hnot⟩
  case rooted => exact fun x hx => h.rooted x (hexisting.mp hx).1
  case finished =>
    intro x hx
    obtain ⟨hx, hnot⟩ := hexisting.mp hx
    have hhead : ¬S (c.head x) = true := by rwa [hclass x hx]
    change (c.free S).status (c.head x) = _ ↔ _
    rw [hout hhead, hout hnot]
    exact h.finished x hx
  case place =>
    intro x hx
    have hnot : ¬S x = true := by
      intro hS
      rw [hin hS] at hx
      exact absurd hx (by decide)
    rw [hout hnot] at hx
    exact h.place x hx
  case nodup => exact fun r hr hunf => (hclasses r hr (hunfinished.mp hunf)).nodup
  case members => exact fun r hr hunf => (hclasses r hr (hunfinished.mp hunf)).members
  case sizes => exact fun r hr hunf => (hclasses r hr (hunfinished.mp hunf)).size
  case positive => exact fun r hr hunf => (hclasses r hr (hunfinished.mp hunf)).positive
  case done =>
    intro r hr hdone'
    have hnot : ¬S r = true := by
      intro hS
      rw [hin hS] at hdone'
      exact absurd hdone' (by decide)
    rw [hout hnot] at hdone'
    exact h.done r hr hdone'
  case sound =>
    intro x y hxy
    obtain ⟨hiff, hsame⟩ := h.sound x y hxy
    rw [hexisting, hexisting]
    have hS : c.Existing x → S x = S y := by
      intro hx
      obtain ⟨r, hxr, hyr⟩ := hsame hx
      exact (hroot hx hxr).symm.trans (hroot (hiff.mp hx) hyr)
    constructor
    · constructor
      · rintro ⟨hx, hnot⟩
        exact ⟨hiff.mp hx, hS hx ▸ hnot⟩
      · rintro ⟨hy, hnot⟩
        exact ⟨hiff.mpr hy, by rwa [hS (hiff.mpr hy)]⟩
    · exact fun hx => hsame hx.1
  case complete => exact fun x r hx hr => h.complete x r (hexisting.mp hx).1 hr

/-- Two classes become one, whose root is `r₂`. -/
def join (c : Classes P) (r₁ r₂ : ℕ) : Classes P :=
  { c with
    head := Function.update c.head r₁ r₂
    list := Function.update (Function.update c.list r₂ (c.list r₂ ++ c.list r₁ ++ [r₁])) r₁ []
    size := Function.update (Function.update c.size r₂ (c.size r₂ + c.size r₁)) r₁ 0 }

def merge (c : Classes P) (x y : ℕ) : Classes P := { c with merges := c.merges ++ [(x, y)] }

theorem Related.merge {x y : ℕ} (hrel : c.Related x y) (t₁ t₂ : ℕ) : (c.merge t₁ t₂).Related x y :=
  hrel.mono fun _ _ hxy => List.mem_append_left _ hxy

theorem related_merged (c : Classes P) (t₁ t₂ : ℕ) : (c.merge t₁ t₂).Related t₁ t₂ :=
  .rel _ _ (List.mem_append_right _ List.mem_cons_self)

theorem Valid.merge (h : c.Valid) {t₁ t₂ : ℕ} (h₁ : c.Existing t₁) (h₂ : c.Existing t₂) (hsame : c.Same t₁ t₂) :
    (c.merge t₁ t₂).Valid :=
  { h with
    sound := by
      intro x y hxy
      rcases List.mem_append.mp hxy with hxy | hxy
      · exact h.sound x y hxy
      · obtain ⟨rfl, rfl⟩ := Prod.mk.inj (List.mem_singleton.mp hxy)
        exact ⟨⟨fun _ => h₂, fun _ => h₁⟩, fun _ => hsame⟩
    complete := fun x r hx hr => Related.merge (h.complete x r hx hr) t₁ t₂ }

theorem Valid.join (h : c.Valid) {r₁ r₂ t₁ t₂ : ℕ} (hr₁ : c.head r₁ = r₁) (hr₂ : c.head r₂ = r₂) (hne : r₁ ≠ r₂)
    (hunf₁ : c.Unfinished r₁) (hunf₂ : c.Unfinished r₂) (ht₁ : c.Existing t₁) (ht₂ : c.Existing t₂)
    (hroots : RootOf c.head t₁ r₁ ∧ RootOf c.head t₂ r₂ ∨ RootOf c.head t₁ r₂ ∧ RootOf c.head t₂ r₁) :
    ((c.join r₁ r₂).merge t₁ t₂).Valid := by
  have hhead₁ : (c.join r₁ r₂).head r₁ = r₂ := Function.update_self ..
  have hhead : ∀ {x}, x ≠ r₁ → (c.join r₁ r₂).head x = c.head x := fun hx => Function.update_of_ne hx ..
  have hlink : ∀ {x r}, RootOf c.head x r → RootOf (c.join r₁ r₂).head x (if r = r₁ then r₂ else r) := fun hr =>
    hr.link hr₂ hne hr₁
  have hex₁ := (unfinished_iff.mp hunf₁).1
  have hex₂ := (unfinished_iff.mp hunf₂).1
  -- the old root of what has the root `r` now
  have hold : ∀ {x r}, c.Existing x → RootOf (c.join r₁ r₂).head x r →
      ∃ r', RootOf c.head x r' ∧ r = if r' = r₁ then r₂ else r' := by
    intro x r hx hr
    obtain ⟨r', hr'⟩ := h.rooted x hx
    exact ⟨r', hr', hr.unique (hlink hr')⟩
  have hrootOf : ∀ {x r}, c.Existing x → r ≠ r₁ → r ≠ r₂ → (RootOf (c.join r₁ r₂).head x r ↔ RootOf c.head x r) := by
    intro x r hx hrr₁ hrr₂
    constructor
    · intro hr
      obtain ⟨r', hr', heq⟩ := hold hx hr
      by_cases hr'₁ : r' = r₁
      · rw [if_pos hr'₁] at heq
        exact absurd heq hrr₂
      · rw [if_neg hr'₁] at heq
        rwa [heq]
    · intro hr
      have hr := hlink hr
      rwa [if_neg hrr₁] at hr
  have hrootOf₂ : ∀ {x}, c.Existing x →
      (RootOf (c.join r₁ r₂).head x r₂ ↔ RootOf c.head x r₂ ∨ RootOf c.head x r₁) := by
    intro x hx
    constructor
    · intro hr
      obtain ⟨r', hr', heq⟩ := hold hx hr
      by_cases hr'₁ : r' = r₁
      · exact .inr (hr'₁ ▸ hr')
      · rw [if_neg hr'₁] at heq
        rw [heq]
        exact .inl hr'
    · rintro (hr | hr)
      · have hr := hlink hr
        rwa [if_neg hne.symm] at hr
      · have hr := hlink hr
        rwa [if_pos rfl] at hr
  have hkept : ∀ {r}, (c.join r₁ r₂).head r = r → r ≠ r₁ ∧ c.head r = r := by
    intro r hr
    have hrr₁ : r ≠ r₁ := by
      rintro rfl
      rw [hhead₁] at hr
      exact hne hr.symm
    exact ⟨hrr₁, (hhead hrr₁).symm.trans hr⟩
  have hlist : ∀ {r}, r ≠ r₁ → r ≠ r₂ → (c.join r₁ r₂).list r = c.list r := fun hrr₁ hrr₂ =>
    (Function.update_of_ne hrr₁ ..).trans (Function.update_of_ne hrr₂ ..)
  have hlist₂ : (c.join r₁ r₂).list r₂ = c.list r₂ ++ c.list r₁ ++ [r₁] :=
    (Function.update_of_ne hne.symm ..).trans (Function.update_self ..)
  have hsize : ∀ {r}, r ≠ r₁ → r ≠ r₂ → (c.join r₁ r₂).size r = c.size r := fun hrr₁ hrr₂ =>
    (Function.update_of_ne hrr₁ ..).trans (Function.update_of_ne hrr₂ ..)
  have hsize₂ : (c.join r₁ r₂).size r₂ = c.size r₂ + c.size r₁ :=
    (Function.update_of_ne hne.symm ..).trans (Function.update_self ..)
  have hsame : ∀ {x y}, c.Same x y → (c.join r₁ r₂).Same x y := fun ⟨r, hxr, hyr⟩ => ⟨_, hlink hxr, hlink hyr⟩
  have hpair : (c.join r₁ r₂).Same t₁ t₂ := by
    rcases hroots with ⟨ht₁r, ht₂r⟩ | ⟨ht₁r, ht₂r⟩
    · exact ⟨r₂, (hrootOf₂ ht₁).mpr (.inr ht₁r), (hrootOf₂ ht₂).mpr (.inl ht₂r)⟩
    · exact ⟨r₂, (hrootOf₂ ht₁).mpr (.inl ht₁r), (hrootOf₂ ht₂).mpr (.inr ht₂r)⟩
  have hrelated : (c.merge t₁ t₂).Related r₁ r₂ := by
    have hto : ∀ {t r}, c.Existing t → RootOf c.head t r → (c.merge t₁ t₂).Related t r := fun ht hr =>
      Related.merge (h.complete _ _ ht hr) t₁ t₂
    have hnew := related_merged c t₁ t₂
    rcases hroots with ⟨ht₁r, ht₂r⟩ | ⟨ht₁r, ht₂r⟩
    · exact ((hto ht₁ ht₁r).symm.trans _ _ _ hnew).trans _ _ _ (hto ht₂ ht₂r)
    · exact ((hto ht₂ ht₂r).symm.trans _ _ _ hnew.symm).trans _ _ _ (hto ht₁ ht₁r)
  have hclass : ∀ r, (c.join r₁ r₂).head r = r → c.Unfinished r → ((c.join r₁ r₂).merge t₁ t₂).ClassAt r := by
    intro r hr hunf
    obtain ⟨hrr₁, hr⟩ := hkept hr
    by_cases hrr₂ : r = r₂
    · rw [hrr₂]
      have hclass₁ := h.nodup_class hr₁ hunf₁
      constructor
      case nodup =>
        change ((c.join r₁ r₂).list r₂).Nodup
        rw [hlist₂, List.append_assoc, List.nodup_append]
        refine ⟨h.nodup r₂ hr₂ hunf₂, (List.perm_append_singleton r₁ _).nodup_iff.mpr hclass₁, fun x hx₂ y hy₁ hxy => ?_⟩
        have hy₁ := (h.mem_class hr₁ hunf₁).mp ((List.perm_append_singleton r₁ _).mem_iff.mp hy₁)
        have hx₂ := (h.mem_class hr₂ hunf₂).mp (List.mem_cons_of_mem _ hx₂)
        exact hne (hy₁.2.unique (hxy ▸ hx₂.2))
      case members =>
        intro x
        change x ∈ (c.join r₁ r₂).list r₂ ↔ x ≠ r₂ ∧ c.Existing x ∧ RootOf (c.join r₁ r₂).head x r₂
        rw [hlist₂, List.append_assoc, List.mem_append, (List.perm_append_singleton r₁ _).mem_iff,
          h.mem_class hr₁ hunf₁, h.members r₂ hr₂ hunf₂]
        constructor
        · rintro (⟨hx₂, hx, hroot⟩ | ⟨hx, hroot⟩)
          · exact ⟨hx₂, hx, (hrootOf₂ hx).mpr (.inl hroot)⟩
          · refine ⟨fun hx₂ => ?_, hx, (hrootOf₂ hx).mpr (.inr hroot)⟩
            rw [hx₂] at hroot
            exact hne (hroot.unique (.root hr₂))
        · rintro ⟨hx₂, hx, hroot⟩
          exact ((hrootOf₂ hx).mp hroot).imp (⟨hx₂, hx, ·⟩) (⟨hx, ·⟩)
      case size =>
        change (c.join r₁ r₂).size r₂ = c.actives (r₂ :: (c.join r₁ r₂).list r₂)
        rw [hlist₂, hsize₂, h.sizes r₁ hr₁ hunf₁, h.sizes r₂ hr₂ hunf₂, actives_cons, actives_cons, actives_cons,
          actives_append, actives_append, actives_cons]
        have hnil : c.actives [] = 0 := List.countP_nil
        omega
      case positive => exact hsize₂ ▸ Nat.add_pos_left (h.positive r₂ hr₂ hunf₂) _
    · exact (h.classAt hr hunf).congr (hlist hrr₁ hrr₂) (hsize hrr₁ hrr₂)
        (fun x => and_congr_right fun hx => hrootOf hx hrr₁ hrr₂) fun _ _ => rfl
  constructor
  case closed =>
    intro x hx
    by_cases hx₁ : x = r₁
    · change c.Existing ((c.join r₁ r₂).head x)
      rw [hx₁, hhead₁]
      exact hex₂
    · change c.Existing ((c.join r₁ r₂).head x)
      rw [hhead hx₁]
      exact h.closed x hx
  case rooted =>
    intro x hx
    obtain ⟨r, hr⟩ := h.rooted x hx
    exact ⟨_, hlink hr⟩
  case finished =>
    intro x hx
    change c.status ((c.join r₁ r₂).head x) = _ ↔ _
    by_cases hx₁ : x = r₁
    · rw [hx₁, hhead₁]
      exact iff_of_false (unfinished_iff.mp hunf₂).2 (unfinished_iff.mp hunf₁).2
    · rw [hhead hx₁]
      exact h.finished x hx
  case place =>
    intro x hx
    have hx₁ : x ≠ r₁ := by
      rintro rfl
      exact (unfinished_iff.mp hunf₁).2 hx
    change c.place ((c.join r₁ r₂).head x) = _
    rw [hhead hx₁]
    exact h.place x hx
  case nodup => exact fun r hr hunf => (hclass r hr hunf).nodup
  case members => exact fun r hr hunf => (hclass r hr hunf).members
  case sizes => exact fun r hr hunf => (hclass r hr hunf).size
  case positive => exact fun r hr hunf => (hclass r hr hunf).positive
  case done =>
    intro r hr hdone
    obtain ⟨hrr₁, hr⟩ := hkept hr
    have hrr₂ : r ≠ r₂ := by
      rintro rfl
      exact (unfinished_iff.mp hunf₂).2 hdone
    change (c.join r₁ r₂).list r = [] ∧ (c.join r₁ r₂).size r = 0
    rw [hlist hrr₁ hrr₂, hsize hrr₁ hrr₂]
    exact h.done r hr hdone
  case sound =>
    intro x y hxy
    rcases List.mem_append.mp hxy with hxy | hxy
    · obtain ⟨hiff, hsame'⟩ := h.sound x y hxy
      exact ⟨hiff, fun hx => hsame (hsame' hx)⟩
    · obtain ⟨rfl, rfl⟩ := Prod.mk.inj (List.mem_singleton.mp hxy)
      exact ⟨⟨fun _ => ht₂, fun _ => ht₁⟩, fun _ => hpair⟩
  case complete =>
    intro x r hx hr
    obtain ⟨r', hr', rfl⟩ := hold hx hr
    have hxr' : (c.merge t₁ t₂).Related x r' := Related.merge (h.complete x r' hx hr') t₁ t₂
    by_cases hr'₁ : r' = r₁
    · rw [if_pos hr'₁]
      rw [hr'₁] at hxr'
      exact hxr'.trans _ _ _ hrelated
    · rw [if_neg hr'₁]
      exact hxr'

theorem Valid.move (h : c.Valid) {place' : ℕ → P} (hplace : ∀ x, c.status x = .COMPLETE → place' x = c.place x) :
    ({ c with place := place' } : Classes P).Valid :=
  { h with
    place := by
      intro x hx
      have hexists : c.Existing x := fun hfree => absurd (hx.symm.trans hfree) (by decide)
      change place' (c.head x) = place' x
      rw [hplace x hx, hplace _ ((h.finished x hexists).mpr hx)]
      exact h.place x hx }

end Classes

end dce.episode.trans
