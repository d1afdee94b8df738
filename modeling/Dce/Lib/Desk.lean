import Dce.Lib.Places

namespace lib

/-- A desk where jobs of several kinds are accepted: some are handed to a worker at once, the others queue, and may be
withdrawn while they do. The last three lists say what has happened so far: the jobs served from the queue, all that ever
queued and those withdrawn, each in the order of the events. -/
structure Desk (α κ ω : Type*) where
  accepted : List α
  assigned : ω → Option α
  queue : List (α × κ)
  started : List (α × ω)
  served : List (α × κ)
  logged : List (α × κ)
  withdrawn : List α

namespace Desk

/-- Where an accepted job can be. -/
inductive Spot (ω : Type*) where
  | queued
  | assigned (w : ω)
  | started (w : ω)
  | withdrawn

variable {α κ ω : Type*} [DecidableEq α] [DecidableEq κ] [DecidableEq ω]

def jobs (d : Desk α κ ω) : Spot ω → List α
  | .queued => d.queue.map Prod.fst
  | .assigned w => (d.assigned w).toList
  | .started w => (d.started.filter fun job => job.2 = w).map Prod.fst
  | .withdrawn => d.withdrawn

def ofKind (k : κ) (js : List (α × κ)) : List (α × κ) := js.filter fun job => job.2 = k

/-- No job is lost or done twice, and the jobs of every kind that had to queue are served in the order they came, those
left out that were withdrawn. -/
structure Kept (d : Desk α κ ω) : Prop where
  apart : Apart d.jobs
  all : ∀ a, a ∈ d.accepted ↔ ∃ x, a ∈ d.jobs x
  served_started : ∀ job ∈ d.served, ∃ w, job.1 ∈ d.jobs (.started w)
  order : ∀ k, ofKind k d.served ++ ofKind k d.queue = (ofKind k d.logged).filter fun job => job.1 ∉ d.withdrawn

def empty : Desk α κ ω where
  accepted := []
  assigned _ := none
  queue := []
  started := []
  served := []
  logged := []
  withdrawn := []

def assign (d : Desk α κ ω) (a : α) (w : ω) : Desk α κ ω :=
  { d with accepted := d.accepted ++ [a], assigned := Function.update d.assigned w (some a) }

def enqueue (d : Desk α κ ω) (a : α) (k : κ) : Desk α κ ω :=
  { d with accepted := d.accepted ++ [a], queue := d.queue ++ [(a, k)], logged := d.logged ++ [(a, k)] }

def begin (d : Desk α κ ω) (a : α) (w : ω) : Desk α κ ω :=
  { d with assigned := Function.update d.assigned w none, started := d.started ++ [(a, w)] }

def serve (d : Desk α κ ω) (a : α) (k : κ) (w : ω) (rest : List (α × κ)) : Desk α κ ω :=
  { d with queue := rest, started := d.started ++ [(a, w)], served := d.served ++ [(a, k)] }

def withdraw (d : Desk α κ ω) (a : α) : Desk α κ ω :=
  { d with queue := d.queue.filter (fun job => job.1 ≠ a), withdrawn := d.withdrawn ++ [a] }

variable {d : Desk α κ ω} {a : α} {k : κ} {w : ω}

theorem kept_empty : (empty : Desk α κ ω).Kept where
  apart := ⟨fun x => by cases x <;> simp [jobs, empty], fun {a x y} hx => by cases x <;> simp [jobs, empty] at hx⟩
  all a := by
    constructor
    · intro h
      cases h
    · rintro ⟨x, hx⟩
      cases x <;> simp [jobs, empty] at hx
  served_started job hjob := by simp [empty] at hjob
  order _ := rfl

omit [DecidableEq α] in
@[simp] theorem ofKind_append (k : κ) (js js' : List (α × κ)) : ofKind k (js ++ js') = ofKind k js ++ ofKind k js' :=
  List.filter_append ..

variable (h : d.Kept)

include h

theorem Kept.fresh (hfresh : a ∉ d.accepted) (x : Spot ω) : a ∉ d.jobs x :=
  fun hx => hfresh ((h.all a).mpr ⟨x, hx⟩)

theorem Kept.all_add {d' : Desk α κ ω} {y : Spot ω} (haccepted : d'.accepted = d.accepted ++ [a])
    (hto : (d'.jobs y).Perm (a :: d.jobs y)) (hother : ∀ z, z ≠ y → (d'.jobs z).Perm (d.jobs z)) (b : α) :
    b ∈ d'.accepted ↔ ∃ x, b ∈ d'.jobs x := by
  rw [haccepted, List.mem_append, List.mem_singleton, h.all b]
  constructor
  · rintro (⟨x, hx⟩ | rfl)
    · by_cases hxy : x = y
      · subst hxy
        exact ⟨x, hto.mem_iff.mpr (List.mem_cons_of_mem a hx)⟩
      · exact ⟨x, (hother x hxy).mem_iff.mpr hx⟩
    · exact ⟨y, hto.mem_iff.mpr List.mem_cons_self⟩
  · rintro ⟨x, hx⟩
    by_cases hxy : x = y
    · subst hxy
      obtain rfl | hx := List.mem_cons.mp (hto.mem_iff.mp hx)
      · exact .inr rfl
      · exact .inl ⟨x, hx⟩
    · exact .inl ⟨x, (hother x hxy).mem_iff.mp hx⟩

theorem Kept.all_move {d' : Desk α κ ω} {x y : Spot ω} (hne : x ≠ y) (haccepted : d'.accepted = d.accepted)
    (hfrom : (d.jobs x).Perm (a :: d'.jobs x)) (hto : (d'.jobs y).Perm (a :: d.jobs y))
    (hother : ∀ z, z ≠ x → z ≠ y → (d'.jobs z).Perm (d.jobs z)) (b : α) : b ∈ d'.accepted ↔ ∃ z, b ∈ d'.jobs z := by
  have hmem := h.apart.mem_move hne hfrom hto hother b
  rw [haccepted, h.all b]
  constructor
  · rintro ⟨z, hz⟩
    by_cases hba : b = a
    · exact ⟨y, (hmem y).mpr (.inl ⟨hba, rfl⟩)⟩
    · exact ⟨z, (hmem z).mpr (.inr ⟨hba, hz⟩)⟩
  · rintro ⟨z, hz⟩
    obtain ⟨rfl, -⟩ | ⟨-, hz⟩ := (hmem z).mp hz
    · exact ⟨x, hfrom.mem_iff.mpr List.mem_cons_self⟩
    · exact ⟨z, hz⟩

theorem Kept.assign (hfresh : a ∉ d.accepted) (hfree : d.assigned w = none) : (d.assign a w).Kept := by
  have hto : ((d.assign a w).jobs (.assigned w)).Perm (a :: d.jobs (.assigned w)) := by simp [jobs, Desk.assign, hfree]
  have hother : ∀ z, z ≠ .assigned w → ((d.assign a w).jobs z).Perm (d.jobs z) := by
    intro z hz
    cases z with
    | assigned w' =>
      have hne : w' ≠ w := fun hw => hz (by rw [hw])
      simp [jobs, Desk.assign, hne]
    | queued | started | withdrawn => exact .refl _
  exact ⟨h.apart.add (h.fresh hfresh) hto hother, h.all_add rfl hto hother, h.served_started, h.order⟩

theorem Kept.enqueue (hfresh : a ∉ d.accepted) (k : κ) : (d.enqueue a k).Kept := by
  have hto : ((d.enqueue a k).jobs .queued).Perm (a :: d.jobs .queued) := by
    simp [jobs, Desk.enqueue]
  have hother : ∀ z, z ≠ .queued → ((d.enqueue a k).jobs z).Perm (d.jobs z) := by
    intro z hz
    cases z with
    | queued => exact absurd rfl hz
    | assigned | started | withdrawn => exact .refl _
  refine ⟨h.apart.add (h.fresh hfresh) hto hother, h.all_add rfl hto hother, h.served_started, fun k' => ?_⟩
  have hnot : a ∉ d.withdrawn := h.fresh hfresh .withdrawn
  have hkind : ofKind k' ([(a, k)] : List (α × κ)) = (ofKind k' [(a, k)]).filter fun job => job.1 ∉ d.withdrawn := by
    by_cases hk : k = k' <;> simp [ofKind, hk, hnot]
  change ofKind k' d.served ++ ofKind k' (d.queue ++ [(a, k)]) =
    (ofKind k' (d.logged ++ [(a, k)])).filter fun job => job.1 ∉ d.withdrawn
  rw [ofKind_append, ofKind_append, List.filter_append, ← hkind, ← h.order k', List.append_assoc]

theorem Kept.begin (hassigned : d.assigned w = some a) : (d.begin a w).Kept := by
  have hfrom : (d.jobs (.assigned w)).Perm (a :: (d.begin a w).jobs (.assigned w)) := by simp [jobs, Desk.begin, hassigned]
  have hto : ((d.begin a w).jobs (.started w)).Perm (a :: d.jobs (.started w)) := by
    simp [jobs, Desk.begin, List.filter_append]
  have hother : ∀ z, z ≠ .assigned w → z ≠ .started w → ((d.begin a w).jobs z).Perm (d.jobs z) := by
    intro z hz hz'
    cases z with
    | assigned w' =>
      have hne : w' ≠ w := fun hw => hz (by rw [hw])
      simp [jobs, Desk.begin, hne]
    | started w' =>
      have hne : w ≠ w' := fun hw => hz' (by rw [hw])
      simp [jobs, Desk.begin, List.filter_append, hne]
    | queued | withdrawn => exact .refl _
  have hstarted : ∀ (job : α × κ) (w' : ω), job.1 ∈ d.jobs (.started w') → job.1 ∈ (d.begin a w).jobs (.started w') := by
    intro job w' hjob
    simp only [jobs, Desk.begin, List.filter_append, List.map_append, List.mem_append]
    exact .inl hjob
  have hne : Spot.assigned w ≠ Spot.started w := by simp
  refine ⟨h.apart.move hne hfrom hto hother, h.all_move hne rfl hfrom hto hother, ?_, h.order⟩
  intro job hjob
  obtain ⟨w', hw'⟩ := h.served_started job hjob
  exact ⟨w', hstarted job w' hw'⟩

theorem Kept.serve {before after : List (α × κ)} (hqueue : d.queue = before ++ (a, k) :: after)
    (hfirst : ∀ job ∈ before, job.2 ≠ k) (w : ω) : (d.serve a k w (before ++ after)).Kept := by
  have hfrom : (d.jobs .queued).Perm (a :: (d.serve a k w (before ++ after)).jobs .queued) := by
    simp only [jobs, Desk.serve, hqueue, List.map_append, List.map_cons]
    exact List.perm_middle
  have hto : ((d.serve a k w (before ++ after)).jobs (.started w)).Perm (a :: d.jobs (.started w)) := by
    simp [jobs, Desk.serve, List.filter_append]
  have hother : ∀ z, z ≠ .queued → z ≠ .started w → ((d.serve a k w (before ++ after)).jobs z).Perm (d.jobs z) := by
    intro z hz hz'
    cases z with
    | queued => exact absurd rfl hz
    | started w' =>
      have hne : w ≠ w' := fun hw => hz' (by rw [hw])
      simp [jobs, Desk.serve, List.filter_append, hne]
    | assigned | withdrawn => exact .refl _
  have hne : Spot.queued ≠ Spot.started w := by simp
  refine ⟨h.apart.move hne hfrom hto hother, h.all_move hne rfl hfrom hto hother, ?_, ?_⟩
  · intro job hjob
    obtain hjob | rfl := (List.mem_append.mp hjob).imp_right List.mem_singleton.mp
    · obtain ⟨w', hw'⟩ := h.served_started job hjob
      refine ⟨w', ?_⟩
      simp only [jobs, Desk.serve, List.filter_append, List.map_append, List.mem_append]
      exact .inl hw'
    · exact ⟨w, hto.mem_iff.mpr List.mem_cons_self⟩
  · intro k'
    change ofKind k' (d.served ++ [(a, k)]) ++ ofKind k' (before ++ after) =
      (ofKind k' d.logged).filter fun job => job.1 ∉ d.withdrawn
    have hqueue' : ofKind k' d.queue = ofKind k' before ++ (ofKind k' [(a, k)] ++ ofKind k' after) := by
      rw [hqueue, ← List.singleton_append, ofKind_append, ofKind_append]
    have hswap : ofKind k' before ++ ofKind k' [(a, k)] = ofKind k' [(a, k)] ++ ofKind k' before := by
      by_cases hk : k = k'
      · subst hk
        have hnone : ofKind k before = [] := List.filter_eq_nil_iff.mpr fun job hjob => by simpa using hfirst job hjob
        rw [hnone, List.append_nil, List.nil_append]
      · have hnone : ofKind k' ([(a, k)] : List (α × κ)) = [] := by simp [ofKind, hk]
        rw [hnone, List.append_nil, List.nil_append]
    rw [← h.order k', hqueue', ofKind_append, ofKind_append, ← List.append_assoc (ofKind k' before), hswap]
    simp only [List.append_assoc]

theorem Kept.withdraw (hqueued : a ∈ d.jobs .queued) : (d.withdraw a).Kept := by
  have hnodup := h.apart.nodup .queued
  have hfilter : (d.withdraw a).jobs .queued = (d.jobs .queued).filter fun b => b ≠ a := by
    simp only [jobs, Desk.withdraw, List.filter_map]
    rfl
  have hfrom : (d.jobs .queued).Perm (a :: (d.withdraw a).jobs .queued) := by
    have herase : (d.jobs .queued).erase a = (d.jobs .queued).filter fun b => b ≠ a := by
      rw [hnodup.erase_eq_filter a]
      congr 1
      funext b
      by_cases hba : b = a <;> simp [hba]
    rw [hfilter, ← herase]
    exact List.perm_cons_erase hqueued
  have hto : ((d.withdraw a).jobs .withdrawn).Perm (a :: d.jobs .withdrawn) := by simp [jobs, Desk.withdraw]
  have hother : ∀ z, z ≠ .queued → z ≠ .withdrawn → ((d.withdraw a).jobs z).Perm (d.jobs z) := by
    intro z hz hz'
    cases z with
    | queued => exact absurd rfl hz
    | withdrawn => exact absurd rfl hz'
    | assigned | started => exact .refl _
  have hne : (Spot.queued : Spot ω) ≠ Spot.withdrawn := by simp
  refine ⟨h.apart.move hne hfrom hto hother, h.all_move hne rfl hfrom hto hother, h.served_started, fun k => ?_⟩
  change ofKind k d.served ++ ofKind k (d.queue.filter fun job => job.1 ≠ a) =
    (ofKind k d.logged).filter fun job => job.1 ∉ d.withdrawn ++ [a]
  have hserved : (ofKind k d.served).filter (fun job => job.1 ≠ a) = ofKind k d.served := by
    refine List.filter_eq_self.mpr fun job hjob => ?_
    obtain ⟨w, hw⟩ := h.served_started job (List.mem_of_mem_filter hjob)
    have hapart : job.1 ≠ a := by
      rintro rfl
      cases h.apart.unique hqueued hw
    simpa using hapart
  have hsplit : (fun job : α × κ => decide (job.1 ∉ d.withdrawn ++ [a])) =
      fun job => decide (job.1 ≠ a) && decide (job.1 ∉ d.withdrawn) := by
    funext job
    simp [Bool.and_comm]
  have hqueue : ofKind k (d.queue.filter fun job => job.1 ≠ a) = (ofKind k d.queue).filter fun job => job.1 ≠ a :=
    List.filter_comm ..
  rw [hsplit, ← List.filter_filter, ← h.order k, List.filter_append, hserved, hqueue]

theorem Kept.started_nodup : (d.started.map Prod.fst).Nodup := by
  refine List.pairwise_map.mpr (List.pairwise_iff_forall_sublist.mpr fun {x y} hsub heq => ?_)
  have hmem : ∀ job ∈ d.started, job.1 ∈ d.jobs (.started job.2) := fun job hjob =>
    List.mem_map.mpr ⟨job, List.mem_filter.mpr ⟨hjob, by simp⟩, rfl⟩
  have hx := hmem x (hsub.subset (by simp))
  have hy := hmem y (hsub.subset (by simp))
  rw [← heq] at hy
  have hworker : x.2 = y.2 := Spot.started.inj (h.apart.unique hx hy)
  have htwice : [x.1, y.1].Sublist (d.jobs (.started x.2)) := by
    have hfilter := (hsub.filter fun job => decide (job.2 = x.2)).map Prod.fst
    simpa [jobs, hworker] using hfilter
  have hpair := (List.pairwise_iff_forall_sublist.mp (h.apart.nodup (.started x.2))) htwice
  exact hpair heq

theorem Kept.done (hqueue : d.queue = []) (hassigned : ∀ w, d.assigned w = none) (ha : a ∈ d.accepted) :
    (∃ w, a ∈ d.jobs (.started w)) ∨ a ∈ d.withdrawn := by
  obtain ⟨x, hx⟩ := (h.all a).mp ha
  cases x with
  | queued => simp [jobs, hqueue] at hx
  | assigned w => simp [jobs, hassigned w] at hx
  | started w => exact .inl ⟨w, hx⟩
  | withdrawn => exact .inr hx

end Desk

end lib
