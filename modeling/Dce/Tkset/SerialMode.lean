import Dce.Tkset.TokenSet

open lib

namespace dce.tkset

namespace State

/-- The creator of the set has not started it yet. -/
def waits (s : State) (setp : ℕ) : Prop := s.phase setp = .ready ∨ ∃ channel, s.phase setp = .asleep channel

/-- What holds whenever nobody has the lock. -/
structure Inv (s : State) : Prop where
  allNodup : s.tkset_allSets.Nodup
  loopingNodup : s.tkset_loopingSets.Nodup
  running : ∀ i ∈ s.tkset_allSets, s.phase i = .started
  looping : ∀ i, i ∈ s.tkset_loopingSets ↔ s.high i = true ∧ s.waits i
  absent : ∀ i, s.phase i = .absent ↔ s.created ≤ i
  easySleeps : ∀ i, s.phase i = .asleep .tkset_easyWaiting →
    s.high i = false ∧ s.tkset_easyWaiting = true ∧ s.tkset_serial = true
  loopingSleeps : ∀ i, s.phase i = .asleep .tkset_loopingSets → s.high i = true
  alone : ∀ i ∈ s.tkset_allSets, s.high i = true → s.tkset_allSets = [i]
  serial : s.tkset_serial = true ↔ s.tkset_loopingSets ≠ [] ∨ ∃ i ∈ s.tkset_allSets, s.high i = true
  head : s.tkset_allSets = [] → ∀ i, s.tkset_loopingSets.head? = some i → s.phase i = .ready
  order : s.queued = s.starts ++ s.tkset_loopingSets
  counts : ∀ i, i ∈ s.tkset_allSets ∨ s.waits i →
    (s.sets i).refCount = s.revokers i + if (s.sets i).deleted = true then 0 else 1
  fresh : ∀ i, s.waits i → (s.sets i).deleted = false
  held : ∀ i, 0 < s.revokers i → i ∈ s.tkset_allSets

variable {s : State} {i : ℕ}

theorem Inv.not_running (h : s.Inv) (hwaits : s.waits i) : i ∉ s.tkset_allSets := by
  intro hmem
  have hstarted := h.running i hmem
  rcases hwaits with hready | ⟨channel, hasleep⟩
  · exact absurd (hready.symm.trans hstarted) (by decide)
  · exact absurd (hasleep.symm.trans hstarted) (by simp)

section Attempt

theorem waits_start {j : ℕ} : (s.start i).waits j ↔ j ≠ i ∧ s.waits j := by
  unfold waits start
  by_cases hji : j = i
  · simp [hji]
  · simp [hji]

theorem Inv.start (h : s.Inv) (hready : s.phase i = .ready) (hlow : s.high i = false) (hserial : s.tkset_serial = false) :
    (s.start i).Inv := by
  have hwaits : s.waits i := .inl hready
  have hnone : ¬ (s.tkset_loopingSets ≠ [] ∨ ∃ j ∈ s.tkset_allSets, s.high j = true) := fun hsome => by
    rw [h.serial.mpr hsome] at hserial
    exact Bool.noConfusion hserial
  have hphase : ∀ j, j ≠ i → (s.start i).phase j = s.phase j := fun j hj => Function.update_of_ne hj ..
  have hself : (s.start i).phase i = .started := Function.update_self ..
  refine ⟨List.nodup_cons.mpr ⟨h.not_running hwaits, h.allNodup⟩, h.loopingNodup, fun j hj => ?_, fun j => ?_, fun j => ?_,
    fun j hj => ?_, fun j hj => ?_, fun j hj hhigh => ?_, ?_, fun hnil => absurd hnil (List.cons_ne_nil _ _), h.order,
    fun j hj => ?_, fun j hj => h.fresh j (waits_start.mp hj).2, fun j hj => List.mem_cons_of_mem i (h.held j hj)⟩
  · rcases List.mem_cons.mp hj with rfl | hj
    · exact hself
    · have hne : j ≠ i := fun heq => h.not_running hwaits (heq ▸ hj)
      rw [hphase j hne]
      exact h.running j hj
  · rw [waits_start]
    refine (h.looping j).trans (and_congr_right fun hhigh => (and_iff_right ?_).symm)
    rintro rfl
    exact absurd (hhigh.symm.trans hlow) (by decide)
  · by_cases hji : j = i
    · subst hji
      rw [hself]
      refine iff_of_false (by decide) fun hle => ?_
      exact absurd (hready.symm.trans ((h.absent j).mpr hle)) (by decide)
    · rw [hphase j hji]
      exact h.absent j
  · have hji : j ≠ i := by
      rintro rfl
      exact absurd (hself.symm.trans hj) (by simp)
    exact h.easySleeps j (hphase j hji ▸ hj)
  · have hji : j ≠ i := by
      rintro rfl
      exact absurd (hself.symm.trans hj) (by simp)
    exact h.loopingSleeps j (hphase j hji ▸ hj)
  · rcases List.mem_cons.mp hj with rfl | hj
    · exact absurd (hhigh.symm.trans hlow) (by decide)
    · exact absurd ⟨j, hj, hhigh⟩ (not_or.mp hnone).2
  · refine h.serial.trans (or_congr_right ⟨fun ⟨j, hj, hhigh⟩ => ⟨j, List.mem_cons_of_mem i hj, hhigh⟩, ?_⟩)
    rintro ⟨j, hj, hhigh⟩
    rcases List.mem_cons.mp hj with rfl | hj
    · exact absurd (hhigh.symm.trans hlow) (by decide)
    · exact ⟨j, hj, hhigh⟩
  · refine h.counts j ?_
    rcases hj with hj | hj
    · rcases List.mem_cons.mp hj with rfl | hj
      · exact .inr hwaits
      · exact .inl hj
    · exact .inr (waits_start.mp hj).2

theorem Inv.startFirst (h : s.Inv) {rest : List ℕ} (hqueue : s.tkset_loopingSets = i :: rest) (hidle : s.tkset_allSets = []) :
    { s.start i with tkset_loopingSets := s.tkset_loopingSets.tail, starts := s.starts ++ [i] : State }.Inv := by
  obtain ⟨hhigh, hwaits⟩ := (h.looping i).mp (hqueue ▸ List.mem_cons_self)
  have hrest : s.tkset_loopingSets.tail = rest := by rw [hqueue, List.tail_cons]
  have hnodup := List.nodup_cons.mp (hqueue ▸ h.loopingNodup)
  have hphase : ∀ j, j ≠ i → (s.start i).phase j = s.phase j := fun j hj => Function.update_of_ne hj ..
  have hself : (s.start i).phase i = .started := Function.update_self ..
  have hall : (s.start i).tkset_allSets = [i] := congrArg (i :: ·) hidle
  have hne : ∀ {j channel}, (s.start i).phase j = .asleep channel → j ≠ i := by
    rintro j channel hj rfl
    exact absurd (hself.symm.trans hj) (by simp)
  refine ⟨hall ▸ List.nodup_singleton i, hrest.symm ▸ hnodup.2, fun j hj => ?_, fun j => ?_, fun j => ?_, fun j hj => ?_,
    fun j hj => h.loopingSleeps j (hphase j (hne hj) ▸ hj), fun j hj _ => ?_, ?_, fun hnil => absurd (hall.symm.trans hnil) (by simp),
    ?_, fun j hj => h.counts j ?_, fun j hj => h.fresh j (waits_start.mp hj).2, fun j hj => ?_⟩
  · obtain rfl := List.mem_singleton.mp (hall ▸ hj)
    exact hself
  · refine Iff.trans ?_ (and_congr_right fun _ => waits_start).symm
    change j ∈ s.tkset_loopingSets.tail ↔ s.high j = true ∧ j ≠ i ∧ s.waits j
    have hlooping := h.looping j
    rw [hqueue, List.mem_cons] at hlooping
    rw [hrest]
    constructor
    · intro hmem
      obtain ⟨hjhigh, hjwaits⟩ := hlooping.mp (.inr hmem)
      exact ⟨hjhigh, fun heq => hnodup.1 (heq ▸ hmem), hjwaits⟩
    · rintro ⟨hjhigh, hji, hjwaits⟩
      exact (hlooping.mpr ⟨hjhigh, hjwaits⟩).resolve_left hji
  · by_cases hji : j = i
    · subst hji
      refine iff_of_false (fun habs => absurd (hself.symm.trans habs) (by decide)) fun hle => ?_
      have habsent := (h.absent j).mpr hle
      rcases hwaits with hready | ⟨channel, hasleep⟩
      · exact absurd (hready.symm.trans habsent) (by decide)
      · exact absurd (hasleep.symm.trans habsent) (by simp)
    · exact (hphase j hji ▸ h.absent j)
  · exact h.easySleeps j (hphase j (hne hj) ▸ hj)
  · obtain rfl := List.mem_singleton.mp (hall ▸ hj)
    exact hall
  · have hserial : s.tkset_serial = true := h.serial.mpr (.inl (by rw [hqueue]; exact List.cons_ne_nil i rest))
    exact iff_of_true hserial (.inr ⟨i, List.mem_cons_self, hhigh⟩)
  · change s.queued = (s.starts ++ [i]) ++ s.tkset_loopingSets.tail
    rw [hrest, h.order, hqueue, List.append_assoc, List.singleton_append]
  · rcases hj with hj | hj
    · obtain rfl := List.mem_singleton.mp (hall ▸ hj)
      exact .inr hwaits
    · exact .inr (waits_start.mp hj).2
  · have hmem := h.held j hj
    rw [hidle] at hmem
    exact absurd hmem List.not_mem_nil

theorem Inv.sleep (h : s.Inv) (hready : s.phase i = .ready) {channel : Channel}
    (heasy : channel = .tkset_easyWaiting → s.high i = false ∧ s.tkset_easyWaiting = true ∧ s.tkset_serial = true)
    (hlooping : channel = .tkset_loopingSets → s.high i = true)
    (hblocked : ¬(s.tkset_loopingSets.head? = some i ∧ s.tkset_allSets = [])) : (s.sleep i channel).Inv := by
  have hphase : ∀ j, j ≠ i → (s.sleep i channel).phase j = s.phase j := fun j hj => Function.update_of_ne hj ..
  have hself : (s.sleep i channel).phase i = .asleep channel := Function.update_self ..
  have hwaits : ∀ j, (s.sleep i channel).waits j ↔ s.waits j := by
    intro j
    by_cases hji : j = i
    · subst hji
      exact iff_of_true (.inr ⟨channel, hself⟩) (.inl hready)
    · unfold waits
      rw [hphase j hji]
  refine ⟨h.allNodup, h.loopingNodup, fun j hj => ?_, fun j => (h.looping j).trans (and_congr_right fun _ => (hwaits j).symm),
    fun j => ?_, fun j hj => ?_, fun j hj => ?_, h.alone, h.serial, fun hnil j hj => ?_, h.order,
    fun j hj => h.counts j (hj.imp_right (hwaits j).mp), fun j hj => h.fresh j ((hwaits j).mp hj), h.held⟩
  · have hji : j ≠ i := fun heq => h.not_running (.inl hready) (heq ▸ hj)
    rw [hphase j hji]
    exact h.running j hj
  · by_cases hji : j = i
    · subst hji
      refine iff_of_false (fun habs => absurd (hself.symm.trans habs) (by simp)) fun hle => ?_
      exact absurd (hready.symm.trans ((h.absent j).mpr hle)) (by decide)
    · exact hphase j hji ▸ h.absent j
  · by_cases hji : j = i
    · subst hji
      exact heasy (Phase.asleep.inj (hself.symm.trans hj))
    · exact h.easySleeps j (hphase j hji ▸ hj)
  · by_cases hji : j = i
    · subst hji
      exact hlooping (Phase.asleep.inj (hself.symm.trans hj))
    · exact h.loopingSleeps j (hphase j hji ▸ hj)
  · have hji : j ≠ i := fun heq => hblocked ⟨heq ▸ hj, hnil⟩
    rw [hphase j hji]
    exact h.head hnil j hj

theorem Inv.attempt (h : s.Inv) (hready : s.phase i = .ready) : (s.attempt i).Inv := by
  unfold State.attempt
  by_cases hhigh : s.high i = true
  · rw [if_pos hhigh]
    by_cases hfirst : s.tkset_loopingSets.head? = some i ∧ s.tkset_allSets = []
    · rw [if_pos hfirst]
      obtain ⟨rest, hrest⟩ := List.head?_eq_some_iff.mp hfirst.1
      exact h.startFirst hrest hfirst.2
    · rw [if_neg hfirst]
      exact h.sleep hready (fun heq => absurd heq (by decide)) (fun _ => hhigh) hfirst
  · rw [if_neg hhigh]
    have hlow : s.high i = false := Bool.not_eq_true _ ▸ hhigh
    by_cases hserial : s.tkset_serial = false
    · rw [if_pos hserial]
      exact h.start hready hlow hserial
    · rw [if_neg hserial]
      have hnow : s.tkset_serial = true := Bool.not_eq_false _ ▸ hserial
      have hflag : { s with tkset_easyWaiting := true : State }.Inv :=
        { h with easySleeps := fun j hj => ⟨(h.easySleeps j hj).1, rfl, hnow⟩ }
      refine hflag.sleep hready (fun _ => ⟨hlow, rfl, hnow⟩) (fun heq => absurd heq (by decide)) fun hfirst => hhigh ?_
      obtain ⟨rest, hrest⟩ := List.head?_eq_some_iff.mp hfirst.1
      exact ((h.looping i).mp (hrest ▸ List.mem_cons_self)).1

end Attempt

section Zap

theorem Inv.rouse (h : s.Inv) {phase : ℕ → Phase}
    (hphase : ∀ j, phase j = s.phase j ∨ (∃ channel, s.phase j = .asleep channel) ∧ phase j = .ready) :
    { s with phase := phase }.Inv := by
  have hwaits : ∀ j, { s with phase := phase }.waits j ↔ s.waits j := by
    intro j
    rcases hphase j with heq | ⟨hasleep, hready⟩
    · unfold waits
      dsimp only
      rw [heq]
    · exact iff_of_true (.inl hready) (.inr hasleep)
  have hold : ∀ {j p}, p ≠ Phase.ready → phase j = p → s.phase j = p := by
    intro j p hp hj
    rcases hphase j with heq | ⟨-, hready⟩
    · exact heq ▸ hj
    · exact absurd (hj.symm.trans hready) hp
  refine ⟨h.allNodup, h.loopingNodup, fun j hj => ?_, fun j => (h.looping j).trans (and_congr_right fun _ => (hwaits j).symm),
    fun j => ⟨fun habs => (h.absent j).mp (hold (by decide) habs), fun hle => ?_⟩, fun j hj => h.easySleeps j (hold (by simp) hj),
    fun j hj => h.loopingSleeps j (hold (by simp) hj), h.alone, h.serial, fun hnil j hj => ?_, h.order,
    fun j hj => h.counts j (hj.imp_right (hwaits j).mp), fun j hj => h.fresh j ((hwaits j).mp hj), h.held⟩
  · have hstarted := h.running j hj
    rcases hphase j with heq | ⟨⟨channel, hasleep⟩, -⟩
    · exact heq.trans hstarted
    · exact absurd (hstarted.symm.trans hasleep) (by simp)
  · have habsent := (h.absent j).mpr hle
    rcases hphase j with heq | ⟨⟨channel, hasleep⟩, -⟩
    · exact heq.trans habsent
    · exact absurd (habsent.symm.trans hasleep) (by simp)
  · have hready := h.head hnil j hj
    rcases hphase j with heq | ⟨-, hready'⟩
    · exact heq.trans hready
    · exact hready'

theorem Inv.wakeup (h : s.Inv) (channel : Channel) : (s.wakeup channel).Inv := by
  refine h.rouse fun j => ?_
  by_cases hj : s.phase j = .asleep channel
  · exact .inr ⟨⟨channel, hj⟩, if_pos hj⟩
  · exact .inl (if_neg hj)

theorem Inv.wake (h : s.Inv) {channel : Channel} (hasleep : s.phase i = .asleep channel) :
    { s with phase := Function.update s.phase i .ready }.Inv := by
  refine h.rouse fun j => ?_
  by_cases hj : j = i
  · subst hj
    exact .inr ⟨⟨channel, hasleep⟩, Function.update_self ..⟩
  · exact .inl (Function.update_of_ne hj ..)

theorem Inv.held_erase (h : s.Inv) (hfree : s.revokers i = 0) {j : ℕ} (hj : 0 < s.revokers j) : j ∈ s.tkset_allSets.erase i := by
  have hne : j ≠ i := by
    rintro rfl
    omega
  exact (List.mem_erase_of_ne hne).mpr (h.held j hj)

theorem Inv.erase_some (h : s.Inv) (hmem : i ∈ s.tkset_allSets) (hfree : s.revokers i = 0)
    (hsome : s.tkset_allSets.erase i ≠ []) : { s with tkset_allSets := s.tkset_allSets.erase i }.Inv := by
  have hlow : ∀ j ∈ s.tkset_allSets, s.high j = false := by
    intro j hj
    by_contra hhigh
    have hall := h.alone j hj (Bool.not_eq_false _ ▸ hhigh)
    obtain rfl := List.mem_singleton.mp (hall ▸ hmem)
    exact hsome (by rw [hall]; simp)
  refine ⟨h.allNodup.erase i, h.loopingNodup, fun j hj => h.running j (List.mem_of_mem_erase hj), h.looping, h.absent,
    h.easySleeps, h.loopingSleeps, fun j hj hhigh => ?_, ?_, fun hnil => absurd hnil hsome, h.order,
    fun j hj => h.counts j (hj.imp_left List.mem_of_mem_erase), h.fresh, fun j hj => h.held_erase hfree hj⟩
  · exact absurd (hhigh.symm.trans (hlow j (List.mem_of_mem_erase hj))) (by decide)
  · refine h.serial.trans (or_congr_right (iff_of_false ?_ ?_))
    · rintro ⟨j, hj, hhigh⟩
      exact absurd (hhigh.symm.trans (hlow j hj)) (by decide)
    · rintro ⟨j, hj, hhigh⟩
      exact absurd (hhigh.symm.trans (hlow j (List.mem_of_mem_erase hj))) (by decide)

theorem Inv.idle (h : s.Inv) (hfree : s.revokers i = 0) (hnone : s.tkset_allSets.erase i = []) {serial easy : Bool}
    (hserial : serial = true ↔ s.tkset_loopingSets ≠ []) (hready : ∀ j ∈ s.tkset_loopingSets, s.phase j = .ready)
    (heasy : ∀ j, s.phase j = .asleep .tkset_easyWaiting → easy = true ∧ serial = true) :
    { s with tkset_allSets := s.tkset_allSets.erase i, tkset_serial := serial, tkset_easyWaiting := easy }.Inv := by
  refine ⟨h.allNodup.erase i, h.loopingNodup, fun j hj => h.running j (List.mem_of_mem_erase hj), h.looping, h.absent,
    fun j hj => ⟨(h.easySleeps j hj).1, heasy j hj⟩, h.loopingSleeps, fun j hj => ?_, ?_,
    fun _ j hj => hready j (List.mem_of_head? hj), h.order, fun j hj => h.counts j (hj.imp_left List.mem_of_mem_erase), h.fresh,
    fun j hj => h.held_erase hfree hj⟩
  · exact absurd (hnone ▸ hj) List.not_mem_nil
  · refine hserial.trans (or_iff_left ?_).symm
    rintro ⟨j, hj, -⟩
    exact absurd (hnone ▸ hj) List.not_mem_nil

theorem phase_wakeup_ne (channel : Channel) (j : ℕ) : (s.wakeup channel).phase j ≠ .asleep channel := by
  intro hj
  by_cases hasleep : s.phase j = .asleep channel
  · have hready : (s.wakeup channel).phase j = .ready := if_pos hasleep
    exact absurd (hj.symm.trans hready) (by simp)
  · have hsame : (s.wakeup channel).phase j = s.phase j := if_neg hasleep
    exact hasleep (hsame.symm.trans hj)

theorem Inv.tkset_Zap (h : s.Inv) (hmem : i ∈ s.tkset_allSets) (hfree : s.revokers i = 0) : (s.tkset_Zap i).Inv := by
  unfold State.tkset_Zap
  dsimp only
  by_cases hnone : s.tkset_allSets.erase i = []
  · rw [if_pos hnone]
    by_cases hqueue : s.tkset_loopingSets ≠ []
    · -- the queue is woken up
      rw [if_pos hqueue]
      have hwoken := h.wakeup .tkset_loopingSets
      refine hwoken.idle (i := i) hfree hnone (h.serial.trans (or_iff_left_of_imp fun _ => hqueue)) (fun j hj => ?_) fun j hj =>
        (hwoken.easySleeps j hj).2
      obtain ⟨hhigh, hready | ⟨channel, hasleep⟩⟩ := (hwoken.looping j).mp hj
      · exact hready
      · cases channel with
        | tkset_loopingSets => exact absurd hasleep (phase_wakeup_ne _ j)
        | tkset_easyWaiting => exact absurd (hhigh.symm.trans (hwoken.easySleeps j hasleep).1) (by decide)
    · -- the serial mode ends
      rw [if_neg hqueue]
      have hnil : s.tkset_loopingSets = [] := not_not.mp hqueue
      have hno : ∀ j ∈ s.tkset_loopingSets, s.phase j = .ready := fun j hj => absurd (hnil ▸ hj) List.not_mem_nil
      by_cases hflag : s.tkset_easyWaiting = true
      · rw [if_pos hflag]
        have hwoken := h.wakeup .tkset_easyWaiting
        exact hwoken.idle hfree hnone (iff_of_false Bool.false_ne_true hqueue) (fun j hj => absurd (hnil ▸ hj) List.not_mem_nil)
          fun j hj => absurd hj (phase_wakeup_ne _ j)
      · rw [if_neg hflag]
        exact h.idle hfree hnone (iff_of_false Bool.false_ne_true hqueue) hno fun j hj => absurd (h.easySleeps j hj).2.1 hflag
  · rw [if_neg hnone]
    exact h.erase_some hmem hfree hnone

end Zap

section References

theorem Inv.recount (h : s.Inv) (hmem : i ∈ s.tkset_allSets) (setp : TokenSet) {n : ℕ}
    (hretry : setp.retryCount = (s.sets i).retryCount) (hcount : setp.refCount = n + if setp.deleted = true then 0 else 1) :
    { s with sets := Function.update s.sets i setp, revokers := Function.update s.revokers i n }.Inv := by
  have hhigh : ∀ j, { s with sets := Function.update s.sets i setp, revokers := Function.update s.revokers i n }.high j =
      s.high j := by
    intro j
    unfold high
    by_cases hji : j = i
    · subst hji
      simp [hretry]
    · simp [hji]
  have hother : ∀ j, s.waits j → j ≠ i := fun j hj heq => h.not_running hj (heq ▸ hmem)
  refine ⟨h.allNodup, h.loopingNodup, h.running, fun j => by rw [hhigh]; exact h.looping j, h.absent,
    fun j hj => by rw [hhigh]; exact h.easySleeps j hj, fun j hj => by rw [hhigh]; exact h.loopingSleeps j hj,
    fun j hj hj' => h.alone j hj (hhigh j ▸ hj'), ?_, h.head, h.order, fun j hj => ?_, fun j hj => ?_, fun j hj => ?_⟩
  · simp only [hhigh]
    exact h.serial
  · by_cases hji : j = i
    · subst hji
      simpa using hcount
    · simpa [hji] using h.counts j hj
  · have hji := hother j hj
    simpa [hji] using h.fresh j hj
  · by_cases hji : j = i
    · exact hji ▸ hmem
    · exact h.held j (by simpa [hji] using hj)

theorem Inv.revoke (h : s.Inv) (hmem : i ∈ s.tkset_allSets) :
    { s.setRefCount i ((s.sets i).refCount + 1) with revokers := Function.update s.revokers i (s.revokers i + 1) }.Inv := by
  have hcount := h.counts i (.inl hmem)
  refine h.recount hmem { s.sets i with refCount := (s.sets i).refCount + 1 } rfl ?_
  dsimp only
  omega

theorem Inv.revoked (h : s.Inv) (hheld : 0 < s.revokers i) :
    ({ s with revokers := Function.update s.revokers i (s.revokers i - 1) }.tkset_nlrele i).Inv := by
  have hmem := h.held i hheld
  have hcount := h.counts i (.inl hmem)
  have hinv : ({ s with revokers := Function.update s.revokers i (s.revokers i - 1) }.setRefCount i
      ((s.sets i).refCount - 1)).Inv := by
    refine h.recount hmem { s.sets i with refCount := (s.sets i).refCount - 1 } rfl ?_
    dsimp only
    omega
  unfold tkset_nlrele
  dsimp only
  split
  · next hlast =>
    refine hinv.tkset_Zap hmem ?_
    have hgone := hinv.counts i (.inl hmem)
    rw [if_pos hlast.2] at hgone
    exact (Nat.add_zero _ ▸ hgone).symm.trans hlast.1
  · exact hinv

theorem Inv.tkset_Delete (h : s.Inv) (hmem : i ∈ s.tkset_allSets) (hlive : (s.sets i).deleted = false) :
    (s.tkset_Delete i).Inv := by
  have hcount := h.counts i (.inl hmem)
  rw [hlive, if_neg Bool.false_ne_true] at hcount
  unfold State.tkset_Delete
  by_cases hone : (s.sets i).refCount = 1
  · rw [if_pos hone]
    exact h.tkset_Zap hmem (by omega)
  · rw [if_neg hone]
    have hinv : ({ s with sets := Function.update s.sets i { s.sets i with deleted := true } }.setRefCount i
        ((s.sets i).refCount - 1)).Inv := by
      have hrecount := h.recount hmem ⟨(s.sets i).retryCount, (s.sets i).refCount - 1, true⟩ (n := s.revokers i) rfl (by
        rw [if_pos rfl]
        dsimp only
        omega)
      rw [Function.update_eq_self] at hrecount
      simpa [setRefCount] using hrecount
    have hmore : ¬ (s.sets i).refCount - 1 = 0 := by omega
    unfold tkset_nlrele
    simpa [setRefCount, hmore] using hinv

end References

section Enter

theorem Inv.arrive (h : s.Inv) (retryCount : ℤ) {looping queued : List ℕ} {serial : Bool}
    (hlow : tkset_HIGHRETRY retryCount = false → looping = s.tkset_loopingSets ∧ queued = s.queued ∧ serial = s.tkset_serial)
    (hhigh : tkset_HIGHRETRY retryCount = true →
      looping = s.tkset_loopingSets ++ [s.created] ∧ queued = s.queued ++ [s.created] ∧ serial = true) :
    { s with
      sets := Function.update s.sets s.created ⟨retryCount, 1, false⟩
      created := s.created + 1
      phase := Function.update s.phase s.created .ready
      tkset_loopingSets := looping
      queued := queued
      tkset_serial := serial : State }.Inv := by
  set id := s.created with hid
  have habsent : s.phase id = .absent := (h.absent id).mpr (Nat.le_refl _)
  have hnowait : ¬ s.waits id := by
    rintro (hready | ⟨channel, hasleep⟩)
    · exact absurd (habsent.symm.trans hready) (by decide)
    · exact absurd (habsent.symm.trans hasleep) (by simp)
  have hnew : id ∉ s.tkset_allSets := fun hmem => absurd (habsent.symm.trans (h.running id hmem)) (by decide)
  have hfree : s.revokers id = 0 := Nat.eq_zero_of_not_pos fun hheld => hnew (h.held id hheld)
  have hother : ∀ j ∈ s.tkset_allSets, j ≠ id := fun j hj heq => hnew (heq ▸ hj)
  have hqueue : ∀ j ∈ s.tkset_loopingSets, j ≠ id := fun j hj heq => hnowait (heq ▸ ((h.looping j).mp hj).2)
  set s' : State := { s with
    sets := Function.update s.sets id ⟨retryCount, 1, false⟩
    created := id + 1
    phase := Function.update s.phase id .ready
    tkset_loopingSets := looping
    queued := queued
    tkset_serial := serial } with hs'
  have hself : s'.phase id = .ready := Function.update_self ..
  have hselfHigh : s'.high id = tkset_HIGHRETRY retryCount := by simp [high, hs']
  have hphase : ∀ j, j ≠ id → s'.phase j = s.phase j := fun j hj => Function.update_of_ne hj ..
  have hsets : ∀ j, j ≠ id → s'.sets j = s.sets j := fun j hj => Function.update_of_ne hj ..
  have hsame : ∀ j, j ≠ id → s'.high j = s.high j := fun j hj => by
    unfold high
    rw [hsets j hj]
  have hwaits : ∀ j, j ≠ id → (s'.waits j ↔ s.waits j) := fun j hj => by
    unfold waits
    rw [hphase j hj]
  have hsleeper : ∀ {j channel}, s'.phase j = .asleep channel → j ≠ id := by
    rintro j channel hj rfl
    exact absurd (hself.symm.trans hj) (by simp)
  have hloopingMem : ∀ j, j ≠ id → (j ∈ looping ↔ j ∈ s.tkset_loopingSets) := by
    intro j hj
    cases hretry : tkset_HIGHRETRY retryCount with
    | false => rw [(hlow hretry).1]
    | true => simp [(hhigh hretry).1, hj]
  refine ⟨h.allNodup, ?_, fun j hj => ?_, fun j => ?_, fun j => ?_, fun j hj => ?_, fun j hj => ?_, fun j hj hjhigh => ?_, ?_,
    fun hnil j hj => ?_, ?_, fun j hj => ?_, fun j hj => ?_, h.held⟩
  · change looping.Nodup
    cases hretry : tkset_HIGHRETRY retryCount with
    | false =>
      rw [(hlow hretry).1]
      exact h.loopingNodup
    | true =>
      rw [(hhigh hretry).1]
      exact List.concat_eq_append ▸ h.loopingNodup.concat fun hmem => hqueue id hmem rfl
  · rw [hphase j (hother j hj)]
    exact h.running j hj
  · by_cases hj : j = id
    · rw [hj, hselfHigh]
      change id ∈ looping ↔ _
      cases hretry : tkset_HIGHRETRY retryCount with
      | false =>
        rw [(hlow hretry).1]
        exact iff_of_false (fun hmem => hqueue id hmem rfl) fun hfalse => absurd hfalse.1 (by decide)
      | true =>
        rw [(hhigh hretry).1]
        exact iff_of_true (List.mem_append_right _ (List.mem_singleton_self id)) ⟨rfl, .inl hself⟩
    · rw [hsame j hj, hwaits j hj]
      exact (hloopingMem j hj).trans (h.looping j)
  · change s'.phase j = .absent ↔ id + 1 ≤ j
    by_cases hj : j = id
    · subst hj
      rw [hself]
      exact iff_of_false (by decide) (by omega)
    · rw [hphase j hj, h.absent j]
      omega
  · have hjid := hsleeper hj
    obtain ⟨hjlow, hflag, hserial⟩ := h.easySleeps j (hphase j hjid ▸ hj)
    refine ⟨(hsame j hjid).trans hjlow, hflag, ?_⟩
    change serial = true
    cases hretry : tkset_HIGHRETRY retryCount with
    | false => rw [(hlow hretry).2.2, hserial]
    | true => exact (hhigh hretry).2.2
  · have hjid := hsleeper hj
    rw [hsame j hjid]
    exact h.loopingSleeps j (hphase j hjid ▸ hj)
  · exact h.alone j hj (hsame j (hother j hj) ▸ hjhigh)
  · change serial = true ↔ looping ≠ [] ∨ ∃ j ∈ s.tkset_allSets, s'.high j = true
    cases hretry : tkset_HIGHRETRY retryCount with
    | false =>
      rw [(hlow hretry).1, (hlow hretry).2.2, h.serial]
      refine or_congr_right (exists_congr fun j => and_congr_right fun hj => ?_)
      rw [hsame j (hother j hj)]
    | true =>
      rw [(hhigh hretry).1, (hhigh hretry).2.2]
      exact iff_of_true rfl (.inl (by simp))
  · change looping.head? = some j at hj
    by_cases hjid : j = id
    · exact hjid ▸ hself
    · rw [hphase j hjid]
      refine h.head hnil j ?_
      cases hretry : tkset_HIGHRETRY retryCount with
      | false => exact (hlow hretry).1 ▸ hj
      | true =>
        rw [(hhigh hretry).1, List.head?_append] at hj
        cases hfirst : s.tkset_loopingSets.head? with
        | none =>
          rw [hfirst] at hj
          exact absurd (Option.some.inj hj).symm hjid
        | some first =>
          rw [hfirst] at hj
          exact hj
  · change queued = s.starts ++ looping
    cases hretry : tkset_HIGHRETRY retryCount with
    | false =>
      rw [(hlow hretry).1, (hlow hretry).2.1]
      exact h.order
    | true => rw [(hhigh hretry).1, (hhigh hretry).2.1, h.order, List.append_assoc]
  · by_cases hjid : j = id
    · subst hjid
      simp [hs', hfree]
    · rw [hsets j hjid]
      exact h.counts j (hj.imp_right (hwaits j hjid).mp)
  · by_cases hjid : j = id
    · subst hjid
      simp [hs']
    · rw [hsets j hjid]
      exact h.fresh j ((hwaits j hjid).mp hj)

theorem Inv.enter (h : s.Inv) (retryCount : ℤ) : (s.enter retryCount).Inv ∧ (s.enter retryCount).phase s.created = .ready := by
  unfold State.enter
  dsimp only
  by_cases hretry : tkset_HIGHRETRY retryCount = true
  · rw [if_pos hretry]
    exact ⟨h.arrive retryCount (fun hlow => absurd (hretry.symm.trans hlow) (by decide)) fun _ => ⟨rfl, rfl, rfl⟩,
      Function.update_self ..⟩
  · rw [if_neg hretry]
    exact ⟨h.arrive retryCount (fun _ => ⟨rfl, rfl, rfl⟩) fun hhigh => absurd hhigh hretry, Function.update_self ..⟩

end Enter

theorem Inv.step (h : s.Inv) {event : Event} {s' : State} (hstep : s.step event = some s') : s'.Inv := by
  cases event with
  | tkset_Create retryCount =>
    obtain rfl := Option.some.inj hstep
    exact (h.enter retryCount).1.attempt (h.enter retryCount).2
  | resume setp =>
    by_cases hready : s.phase setp = .ready
    · obtain rfl : s.attempt setp = s' := by simpa [State.step, hready] using hstep
      exact h.attempt hready
    · simp [State.step, hready] at hstep
  | wake setp =>
    cases hphase : s.phase setp with
    | asleep channel =>
      simp only [State.step, hphase] at hstep
      obtain rfl := Option.some.inj hstep
      exact h.wake hphase
    | absent => simp [State.step, hphase] at hstep
    | ready => simp [State.step, hphase] at hstep
    | started => simp [State.step, hphase] at hstep
  | tkset_Delete asetp =>
    by_cases hlive : asetp ∈ s.tkset_allSets ∧ (s.sets asetp).deleted = false
    · obtain rfl : s.tkset_Delete asetp = s' := by
        rw [State.step, if_pos hlive] at hstep
        exact Option.some.inj hstep
      exact h.tkset_Delete hlive.1 hlive.2
    · simp [State.step, hlive] at hstep
  | revoke tsetp =>
    by_cases hlive : tsetp ∈ s.tkset_allSets ∧ (s.sets tsetp).deleted = false
    · rw [State.step, if_pos hlive] at hstep
      obtain rfl := Option.some.inj hstep
      exact h.revoke hlive.1
    · simp [State.step, hlive] at hstep
  | revoked tsetp =>
    by_cases hheld : 0 < s.revokers tsetp
    · rw [State.step, if_pos hheld] at hstep
      obtain rfl := Option.some.inj hstep
      exact h.revoked hheld
    · simp [State.step, hheld] at hstep

theorem Inv.of_idle : State.idle.Inv where
  allNodup := List.nodup_nil
  loopingNodup := List.nodup_nil
  running i hmem := absurd hmem List.not_mem_nil
  looping i := by
    refine iff_of_false List.not_mem_nil ?_
    rintro ⟨-, hready | ⟨channel, hasleep⟩⟩
    · exact absurd hready (by simp [State.idle])
    · exact absurd hasleep (by simp [State.idle])
  absent i := iff_of_true rfl (Nat.zero_le i)
  easySleeps i hasleep := absurd hasleep (by simp [State.idle])
  loopingSleeps i hasleep := absurd hasleep (by simp [State.idle])
  alone i hmem := absurd hmem List.not_mem_nil
  serial := by simp [State.idle]
  head _ i hfirst := absurd hfirst (by simp [State.idle])
  order := rfl
  counts i hi := by
    rcases hi with hmem | hready | ⟨channel, hasleep⟩
    · exact absurd hmem List.not_mem_nil
    · exact absurd hready (by simp [State.idle])
    · exact absurd hasleep (by simp [State.idle])
  fresh i hi := by
    rcases hi with hready | ⟨channel, hasleep⟩
    · exact absurd hready (by simp [State.idle])
    · exact absurd hasleep (by simp [State.idle])
  held i hheld := absurd hheld (by simp [State.idle])

theorem inv_of_reachable (hreach : tokenSets.Reachable s) : s.Inv :=
  hreach.invariant (P := Inv) (fun s (hinit : s = State.idle) => hinit ▸ Inv.of_idle) fun _ _ _ hinv hstep => hinv.step hstep

section Starts

theorem attempt_starts {id : ℕ} (hlow : s.high i = false) (hnew : i ∉ s.tkset_allSets)
    (hstarted : i ∈ (s.attempt id).tkset_allSets) : s.tkset_serial = false := by
  unfold State.attempt at hstarted
  by_cases hhigh : s.high id = true
  · rw [if_pos hhigh] at hstarted
    split_ifs at hstarted with hfirst
    · rcases List.mem_cons.mp hstarted with rfl | hold
      · exact absurd (hhigh.symm.trans hlow) (by decide)
      · exact absurd hold hnew
    · exact absurd hstarted hnew
  · rw [if_neg hhigh] at hstarted
    split_ifs at hstarted with hserial
    · exact hserial
    · exact absurd hstarted hnew

theorem tkset_Zap_subset {id : ℕ} (hmem : i ∈ (s.tkset_Zap id).tkset_allSets) : i ∈ s.tkset_allSets := by
  unfold State.tkset_Zap at hmem
  dsimp only at hmem
  split_ifs at hmem <;> exact List.mem_of_mem_erase hmem

theorem tkset_nlrele_subset {id : ℕ} (hmem : i ∈ (s.tkset_nlrele id).tkset_allSets) : i ∈ s.tkset_allSets := by
  unfold tkset_nlrele at hmem
  dsimp only at hmem
  split at hmem
  · exact tkset_Zap_subset (s := s.setRefCount id ((s.sets id).refCount - 1)) hmem
  · exact hmem

theorem tkset_Delete_subset {id : ℕ} (hmem : i ∈ (s.tkset_Delete id).tkset_allSets) : i ∈ s.tkset_allSets := by
  unfold State.tkset_Delete at hmem
  split at hmem
  · exact tkset_Zap_subset hmem
  · exact tkset_nlrele_subset
      (s := { s with sets := Function.update s.sets id { s.sets id with deleted := true } }) hmem

theorem attempt_high (id j : ℕ) : (s.attempt id).high j = s.high j := by
  unfold State.attempt
  split_ifs <;> rfl

theorem step_starts {event : Event} {s' : State} (hstep : s.step event = some s') (hlow : s'.high i = false)
    (hnew : i ∉ s.tkset_allSets) (hstarted : i ∈ s'.tkset_allSets) : s.tkset_serial = false := by
  cases event with
  | tkset_Create retryCount =>
    obtain rfl := Option.some.inj hstep
    rw [attempt_high] at hlow
    unfold enter at hlow hstarted
    dsimp only at hlow hstarted
    split_ifs at hlow hstarted with hretry
    · exact absurd (attempt_starts hlow hnew hstarted) (by simp)
    · exact attempt_starts (s := { s with
        sets := Function.update s.sets s.created ⟨retryCount, 1, false⟩
        created := s.created + 1
        phase := Function.update s.phase s.created .ready }) hlow hnew hstarted
  | resume setp =>
    by_cases hready : s.phase setp = .ready
    · obtain rfl : s.attempt setp = s' := by simpa [State.step, hready] using hstep
      exact attempt_starts (attempt_high setp i ▸ hlow) hnew hstarted
    · simp [State.step, hready] at hstep
  | wake setp =>
    simp only [State.step] at hstep
    split at hstep
    · obtain rfl := Option.some.inj hstep
      exact absurd hstarted hnew
    · exact absurd hstep (by simp)
  | tkset_Delete asetp =>
    simp only [State.step] at hstep
    split at hstep
    · obtain rfl := Option.some.inj hstep
      exact absurd (tkset_Delete_subset hstarted) hnew
    · exact absurd hstep (by simp)
  | revoke tsetp =>
    simp only [State.step] at hstep
    split at hstep
    · obtain rfl := Option.some.inj hstep
      exact absurd hstarted hnew
    · exact absurd hstep (by simp)
  | revoked tsetp =>
    simp only [State.step] at hstep
    split at hstep
    · obtain rfl := Option.some.inj hstep
      exact absurd (tkset_nlrele_subset hstarted) hnew
    · exact absurd hstep (by simp)

end Starts

theorem Inv.able (h : s.Inv) (hidle : s.tkset_allSets = []) {channel : Channel} (hasleep : s.phase i = .asleep channel) :
    ∃ j s', s.phase j = .ready ∧ s.step (.resume j) = some s' ∧ j ∈ s'.tkset_allSets := by
  have hqueue : s.tkset_loopingSets ≠ [] := by
    cases channel with
    | tkset_loopingSets => exact List.ne_nil_of_mem ((h.looping i).mpr ⟨h.loopingSleeps i hasleep, .inr ⟨_, hasleep⟩⟩)
    | tkset_easyWaiting =>
      refine (h.serial.mp (h.easySleeps i hasleep).2.2).resolve_right ?_
      rintro ⟨j, hj, -⟩
      exact absurd (hidle ▸ hj) List.not_mem_nil
  obtain ⟨first, rest, hrest⟩ := List.exists_cons_of_ne_nil hqueue
  have hfirst : s.tkset_loopingSets.head? = some first := by rw [hrest, List.head?_cons]
  have hready := h.head hidle first hfirst
  have hhigh : s.high first = true := ((h.looping first).mp (hrest ▸ List.mem_cons_self)).1
  refine ⟨first, s.attempt first, hready, if_pos hready, ?_⟩
  unfold State.attempt
  rw [if_pos hhigh, if_pos ⟨hfirst, hidle⟩]
  exact List.mem_cons_self

section Lives

/-- A set that was deleted is there for the sake of revokers only. -/
def Awaited (s : State) : Prop := ∀ i ∈ s.tkset_allSets, (s.sets i).deleted = true → 0 < s.revokers i

theorem tkset_Zap_lists (id : ℕ) : (s.tkset_Zap id).sets = s.sets ∧ (s.tkset_Zap id).revokers = s.revokers ∧
    (s.tkset_Zap id).tkset_allSets = s.tkset_allSets.erase id := by
  unfold State.tkset_Zap
  dsimp only
  split_ifs <;> exact ⟨rfl, rfl, rfl⟩

theorem Awaited.zapped (hnodup : s.tkset_allSets.Nodup) {id : ℕ}
    (h : ∀ i ∈ s.tkset_allSets, i ≠ id → (s.sets i).deleted = true → 0 < s.revokers i) : (s.tkset_Zap id).Awaited := by
  obtain ⟨hsets, hrevokers, hall⟩ := s.tkset_Zap_lists id
  intro i hi hdeleted
  rw [hall, hnodup.mem_erase_iff] at hi
  rw [hsets] at hdeleted
  exact hrevokers ▸ h i hi.2 hi.1 hdeleted

theorem Awaited.released (hnodup : s.tkset_allSets.Nodup) {id : ℕ}
    (h : ∀ i ∈ s.tkset_allSets, i ≠ id → (s.sets i).deleted = true → 0 < s.revokers i)
    (hself : (s.sets id).deleted = true → (s.sets id).refCount - 1 ≠ 0 → 0 < s.revokers id) : (s.tkset_nlrele id).Awaited := by
  have hcounted : ∀ i ∈ s.tkset_allSets, i ≠ id → ((s.setRefCount id ((s.sets id).refCount - 1)).sets i).deleted = true →
      0 < s.revokers i := fun i hi hne hdeleted => h i hi hne (by simpa [setRefCount, hne] using hdeleted)
  unfold tkset_nlrele
  dsimp only
  split
  · exact Awaited.zapped (s := s.setRefCount id ((s.sets id).refCount - 1)) hnodup hcounted
  · next hmore =>
    intro i hi hdeleted
    by_cases heq : i = id
    · subst heq
      simp only [setRefCount, Function.update_self] at hmore hdeleted
      exact hself hdeleted fun hnone => hmore ⟨hnone, hdeleted⟩
    · exact hcounted i hi heq hdeleted

theorem Awaited.attempt (h : s.Awaited) {id : ℕ} (hnew : (s.sets id).deleted = false) : (s.attempt id).Awaited := by
  have hstart : (s.start id).Awaited := fun i hi hdeleted => by
    rcases List.mem_cons.mp hi with rfl | hi
    · exact absurd (hdeleted.symm.trans hnew) (by decide)
    · exact h i hi hdeleted
  unfold State.attempt
  split_ifs
  · exact hstart
  · exact h
  · exact hstart
  · exact h

theorem Awaited.step (h : s.Awaited) (hinv : s.Inv) {event : Event} {s' : State} (hstep : s.step event = some s') :
    s'.Awaited := by
  cases event with
  | tkset_Create retryCount =>
    obtain rfl := Option.some.inj hstep
    have hnone : s.created ∉ s.tkset_allSets := fun hmem => by
      have habsent := (hinv.absent s.created).mpr le_rfl
      exact absurd ((hinv.running _ hmem).symm.trans habsent) (by decide)
    have hsets : (s.enter retryCount).sets = Function.update s.sets s.created ⟨retryCount, 1, false⟩ := by
      unfold enter
      split_ifs <;> rfl
    have hlists : (s.enter retryCount).tkset_allSets = s.tkset_allSets ∧ (s.enter retryCount).revokers = s.revokers := by
      unfold enter
      split_ifs <;> exact ⟨rfl, rfl⟩
    refine Awaited.attempt (fun i hi hdeleted => ?_) (by simp [hsets])
    rw [hlists.1] at hi
    have hne : i ≠ s.created := fun heq => hnone (heq ▸ hi)
    rw [hlists.2]
    exact h i hi (by simpa [hsets, hne] using hdeleted)
  | resume setp =>
    by_cases hready : s.phase setp = .ready
    · obtain rfl : s.attempt setp = s' := by simpa [State.step, hready] using hstep
      exact h.attempt (hinv.fresh setp (.inl hready))
    · simp [State.step, hready] at hstep
  | wake setp =>
    simp only [State.step] at hstep
    split at hstep
    · obtain rfl := Option.some.inj hstep
      exact h
    · exact absurd hstep (by simp)
  | tkset_Delete asetp =>
    obtain ⟨hmem, hstep⟩ := Option.ite_none_right_eq_some.mp hstep
    obtain rfl := Option.some.inj hstep
    have hcount := hinv.counts asetp (.inl hmem.1)
    rw [hmem.2, if_neg Bool.false_ne_true] at hcount
    unfold State.tkset_Delete
    split
    · exact .zapped hinv.allNodup fun i hi _ => h i hi
    · refine Awaited.released (s := { s with sets := Function.update s.sets asetp { s.sets asetp with deleted := true } })
        hinv.allNodup (fun i hi hne hdeleted => h i hi (by simpa [hne] using hdeleted)) fun _ hmore => ?_
      simp only [Function.update_self] at hmore
      change 0 < s.revokers asetp
      omega
  | revoke tsetp =>
    obtain ⟨hmem, hstep⟩ := Option.ite_none_right_eq_some.mp hstep
    obtain rfl := Option.some.inj hstep
    intro i hi hdeleted
    by_cases heq : i = tsetp
    · subst heq
      simp
    · simpa [heq] using h i hi (by simpa [heq, setRefCount] using hdeleted)
  | revoked tsetp =>
    obtain ⟨hheld, hstep⟩ := Option.ite_none_right_eq_some.mp hstep
    obtain rfl := Option.some.inj hstep
    refine Awaited.released (s := { s with revokers := Function.update s.revokers tsetp (s.revokers tsetp - 1) })
      hinv.allNodup (fun i hi hne hdeleted => by simpa [hne] using h i hi hdeleted) fun hdeleted hmore => ?_
    have hcount := hinv.counts tsetp (.inl (hinv.held tsetp hheld))
    rw [if_pos hdeleted] at hcount
    simp only [Function.update_self]
    dsimp only at hmore
    omega

end Lives

end State

/-- What the serial mode is for. -/
structure Serial (s : State) : Prop where
  /-- A set that was tried often runs alone. -/
  alone : ∀ setp ∈ s.tkset_allSets, s.high setp = true → s.tkset_allSets = [setp]
  /-- Such sets start in the order in which they were queued. -/
  inOrder : s.queued = s.starts ++ s.tkset_loopingSets
  /-- An ordinary set starts outside of the serial mode only. -/
  ordinary : ∀ event s', s.step event = some s' → ∀ setp, s'.high setp = false → setp ∉ s.tkset_allSets →
    setp ∈ s'.tkset_allSets → s.tkset_serial = false
  /-- When nobody runs and somebody sleeps, a creator that has been woken up is able to start. -/
  woken : s.tkset_allSets = [] → ∀ setp channel, s.phase setp = .asleep channel →
    ∃ first s', s.phase first = .ready ∧ s.step (.resume first) = some s' ∧ first ∈ s'.tkset_allSets
  /-- The mode lasts as long as a set that was tried often waits or runs. -/
  clear : s.tkset_serial = false ↔ s.tkset_loopingSets = [] ∧ ∀ setp ∈ s.tkset_allSets, s.high setp = false

/-- The serial mode does what it is for in every interleaving of creators, deletions and revokers. -/
theorem serial_of_reachable {s : State} (hreach : tokenSets.Reachable s) : Serial s := by
  have hinv := State.inv_of_reachable hreach
  refine ⟨hinv.alone, hinv.order, fun event s' hstep setp hlow hnew hstarted => State.step_starts hstep hlow hnew hstarted,
    fun hidle setp channel hasleep => hinv.able hidle hasleep, ?_⟩
  rw [← Bool.not_eq_true, hinv.serial, not_or, not_not]
  refine and_congr_right fun _ => ?_
  simp

/-- A set that was tried five times waits for an ordinary one, and another ordinary one waits for it. -/
theorem serial_of_reachable_handover : ∃ s, tokenSets.Reachable s ∧ s.tkset_allSets = [1] ∧
    s.phase 2 = .asleep .tkset_easyWaiting ∧ Serial s := by
  obtain ⟨s, hreach, hs⟩ := tokenSets.exists_reachable_of_exec (s := State.idle)
    [.tkset_Create 0, .tkset_Create 5, .tkset_Create 0, .tkset_Delete 0, .resume 1]
    (P := fun s => decide (s.tkset_allSets = [1] ∧ s.phase 2 = .asleep .tkset_easyWaiting)) rfl (by decide +kernel)
  obtain ⟨hall, hasleep⟩ := of_decide_eq_true hs
  exact ⟨s, hreach, hall, hasleep, serial_of_reachable hreach⟩

/-- A set stays as long as its owner or a revoker refers to it, and no longer: a revoker that wakes up finds its set, the
references are counted, and a set that was deleted goes with its last revoker. -/
theorem token_sets_referenced {s : State} (hreach : tokenSets.Reachable s) :
    (∀ setp, 0 < s.revokers setp → setp ∈ s.tkset_allSets) ∧
    ∀ setp ∈ s.tkset_allSets, (s.sets setp).refCount = s.revokers setp + (if (s.sets setp).deleted = true then 0 else 1) ∧
      0 < (s.sets setp).refCount := by
  have hkept : s.Inv ∧ s.Awaited := by
    refine hreach.invariant (P := fun s => s.Inv ∧ s.Awaited) (fun s hinit => ?_) fun _ _ _ h hstep =>
      ⟨h.1.step hstep, h.2.step h.1 hstep⟩
    obtain rfl : s = State.idle := hinit
    exact ⟨State.Inv.of_idle, fun _ hi => absurd hi List.not_mem_nil⟩
  refine ⟨hkept.1.held, fun setp hmem => ?_⟩
  have hcount := hkept.1.counts setp (.inl hmem)
  refine ⟨hcount, ?_⟩
  by_cases hdeleted : (s.sets setp).deleted = true
  · have hawaited := hkept.2 setp hmem hdeleted
    omega
  · rw [if_neg hdeleted] at hcount
    omega

theorem token_sets_referenced_deleted : ∃ s, tokenSets.Reachable s ∧ (s.sets 0).deleted = true ∧ 0 ∈ s.tkset_allSets ∧
    0 < (s.sets 0).refCount := by
  obtain ⟨s, hreach, hs⟩ := tokenSets.exists_reachable_of_exec (s := State.idle) [.tkset_Create 0, .revoke 0, .tkset_Delete 0]
    (P := fun s => decide ((s.sets 0).deleted = true ∧ 0 < s.revokers 0)) rfl (by decide +kernel)
  obtain ⟨hdeleted, hheld⟩ := of_decide_eq_true hs
  obtain ⟨hstays, hcounted⟩ := token_sets_referenced hreach
  exact ⟨s, hreach, hdeleted, hstays 0 hheld, (hcounted 0 (hstays 0 hheld)).2⟩

end dce.tkset
