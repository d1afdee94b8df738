import Dce.Rpc.CthreadExecutor

open lib

set_option linter.style.nameCheck false

namespace dce.rpc

open thread_state_t

namespace Cthreads

variable {s s' : Cthreads} {t : Cthread} {call : Call}

/-- Nothing has been recorded from one state to the other. -/
structure SameHistory (s s' : Cthreads) : Prop where
  accepted : s'.accepted = s.accepted
  started : s'.started = s.started
  served : s'.served = s.served
  logged : s'.logged = s.logged
  dequeued : s'.dequeued = s.dequeued
  astray : s'.astray = s.astray

/-- A call has been taken out of the queues. -/
structure Unqueued (s s' : Cthreads) (call : Call) : Prop where
  threads : SameThreads s s'
  history : SameHistory s s'
  queue : ∀ p, (s'.pools p).call_queue = (s.pools p).call_queue.filter (· ≠ call)
  pvt : s'.pvt = Function.update s.pvt call { is_queued := false, qelt := none }

theorem Queues.filter_ne (h : s.Queues) {i : ℕ} (hpool : s.poolOf call ≠ .reserved i) :
    (s.pools (.reserved i)).call_queue.filter (· ≠ call) = (s.pools (.reserved i)).call_queue := by
  refine List.filter_eq_self.mpr fun call' hcall' => ?_
  rw [h.reserved i] at hcall'
  have hof : s.poolOf call' = .reserved i := by simpa using (List.mem_filter.mp hcall').2
  have hne : call' ≠ call := by
    rintro rfl
    exact hpool hof
  simpa using hne

theorem cthread_call_dequeue_pools (hqueued : (s.pvt call).is_queued = true) (p : PoolHandle) :
    (s.cthread_call_dequeue call).2.pools p =
      if p = s.poolOf call then { s.pools p with
        call_queue := (s.pools p).call_queue.filter (· ≠ call)
        n_queued := (s.pools p).n_queued - 1
        free_queue := match p with
          | .default => (s.pools p).free_queue
          | .reserved _ => (s.pools p).free_queue + 1 }
      else if p = .default then { s.pools p with call_queue := (s.pools p).call_queue.filter (· ≠ call) }
      else s.pools p := by
  cases hqelt : (s.pvt call).qelt with
  | none =>
    have hpool : s.poolOf call = .default := by rw [poolOf, hqelt]
    by_cases hp : p = .default
    · subst hp
      simp [cthread_call_dequeue, hqueued, hqelt, hpool, setPool]
    · simp [cthread_call_dequeue, hqueued, hqelt, hpool, setPool, hp]
  | some i =>
    have hpool : s.poolOf call = .reserved i := by rw [poolOf, hqelt]
    by_cases hp : p = .reserved i
    · subst hp
      simp [cthread_call_dequeue, hqueued, hqelt, hpool, setPool]
    · by_cases hdefault : p = .default
      · subst hdefault
        simp [cthread_call_dequeue, hqueued, hqelt, hpool, setPool]
      · simp [cthread_call_dequeue, hqueued, hqelt, hpool, setPool, hp, hdefault]

theorem Queues.cthread_call_dequeue (h : s.Queues) (hqueued : (s.pvt call).is_queued = true) :
    (s.cthread_call_dequeue call).1 = true ∧ Unqueued s (s.cthread_call_dequeue call).2 call := by
  have hpools := cthread_call_dequeue_pools hqueued
  have hkept : ∀ p, ((s.cthread_call_dequeue call).2.pools p).ctbl = (s.pools p).ctbl ∧
      ((s.cthread_call_dequeue call).2.pools p).stop = (s.pools p).stop ∧
      ((s.cthread_call_dequeue call).2.pools p).n_idle = (s.pools p).n_idle ∧
      ((s.cthread_call_dequeue call).2.pools p).idle_cthread = (s.pools p).idle_cthread := by
    intro p
    rw [hpools]
    split
    · exact ⟨rfl, rfl, rfl, rfl⟩
    · split <;> exact ⟨rfl, rfl, rfl, rfl⟩
  have hqueue : ∀ p, ((s.cthread_call_dequeue call).2.pools p).call_queue = (s.pools p).call_queue.filter (· ≠ call) := by
    intro p
    rw [hpools]
    split
    · rfl
    · next hother =>
      cases p with
      | default => rfl
      | reserved i =>
        rw [if_neg (by simp)]
        exact (h.filter_ne (Ne.symm hother)).symm
  cases hqelt : (s.pvt call).qelt <;> simp only [Cthreads.cthread_call_dequeue, hqueued, hqelt] at hkept hqueue ⊢ <;>
    exact ⟨rfl, ⟨fun p => (hkept p).1, fun p => (hkept p).2.1, fun p => (hkept p).2.2.1, fun p => (hkept p).2.2.2,
      rfl, rfl, rfl, rfl, rfl⟩, ⟨rfl, rfl, rfl, rfl, rfl, rfl⟩, hqueue, rfl⟩

theorem cthread_call_dequeue_not_queued (hqueued : (s.pvt call).is_queued = false) :
    s.cthread_call_dequeue call = (false, s) := by
  rw [Cthreads.cthread_call_dequeue, if_pos (by rw [hqueued]; rfl)]

theorem Unqueued.poolOf (h : Unqueued s s' call) {call' : Call} (hne : call' ≠ call) : s'.poolOf call' = s.poolOf call' := by
  rw [Cthreads.poolOf, h.pvt, Function.update_of_ne hne, ← Cthreads.poolOf]

theorem Unqueued.desk_queue (h : Unqueued s s' call) : s'.desk.queue = s.desk.queue.filter fun job => job.1 ≠ call := by
  simp only [desk, h.queue, List.filter_map]
  refine List.map_congr_left fun call' hcall' => ?_
  have hne : call' ≠ call := by simpa using (List.mem_filter.mp hcall').2
  rw [h.poolOf hne]

theorem Unqueued.queues (h : Unqueued s s' call) (hqueues : s.Queues) : s'.Queues where
  is_queued call' := by
    rw [h.pvt, h.queue, List.mem_filter]
    by_cases hne : call' = call
    · rw [hne, Function.update_self]
      simp
    · rw [Function.update_of_ne hne, hqueues.is_queued]
      simp [hne]
  reserved i := by
    rw [h.queue, h.queue, hqueues.reserved, List.filter_comm]
    refine List.filter_congr fun call' hcall' => ?_
    have hne : call' ≠ call := by simpa using (List.mem_filter.mp hcall').2
    rw [h.poolOf hne]
  busy hne := by
    have hbefore : (s.pools .default).call_queue ≠ [] := by
      intro hnil
      rw [h.queue, hnil] at hne
      exact hne rfl
    obtain ⟨ts, hts, t, ht, hb⟩ := hqueues.busy hbefore
    exact ⟨ts, (h.threads.ctbl _).trans hts, t, ht, (h.threads.busy t).mpr hb⟩

theorem Inv.rpc__cthread_dequeue (h : s.Inv) (call : Call) : (s.rpc__cthread_dequeue call).Inv := by
  cases hqueued : (s.pvt call).is_queued with
  | false =>
    rw [Cthreads.rpc__cthread_dequeue, cthread_call_dequeue_not_queued hqueued]
    exact h
  | true =>
    obtain ⟨htrue, hun⟩ := h.queues.cthread_call_dequeue hqueued
    have heq : s.rpc__cthread_dequeue call =
        { (s.cthread_call_dequeue call).2 with dequeued := (s.cthread_call_dequeue call).2.dequeued ++ [call] } := by
      rw [Cthreads.rpc__cthread_dequeue]
      split
      · next hres => rw [hres]
      · next hres =>
        rw [hres] at htrue
        exact Bool.noConfusion htrue
    rw [heq]
    set s₁ := (s.cthread_call_dequeue call).2
    have hdesk : ({ s₁ with dequeued := s₁.dequeued ++ [call] } : Cthreads).desk = s.desk.withdraw call := by
      have hqueue := hun.desk_queue
      have hhand : s₁.inHand = s.inHand := hun.threads.inHand
      simp only [desk, Desk.withdraw] at hqueue ⊢
      rw [← hun.history.accepted, ← hhand, ← hun.history.started, ← hun.history.served, ← hun.history.logged,
        ← hun.history.dequeued, ← hqueue]
      rfl
    refine ⟨(hun.threads.tables h.tables).congr (fun _ => rfl) (fun _ => rfl) rfl rfl, ?_,
      (hun.threads.control h.control).congr (fun _ => rfl) (fun _ => rfl) rfl rfl rfl,
      (hun.queues h.queues).congr (fun _ => rfl) rfl rfl fun _ _ _ _ _ hb => hb, ?_, hun.history.astray.trans h.astray⟩
    · obtain ⟨hcount, hcthread⟩ := hun.threads.idle h.idle
      exact ⟨hcount, hcthread⟩
    · rw [hdesk]
      refine h.kept.withdraw ?_
      have hmem : call ∈ (s.pools .default).call_queue := (h.queues.is_queued call).mp hqueued
      simp only [Desk.jobs, desk, List.map_map]
      exact List.mem_map.mpr ⟨call, hmem, rfl⟩

theorem Queues.first (h : s.Queues) {p : PoolHandle} {rest : List Call} (hqueue : (s.pools p).call_queue = call :: rest) :
    ∃ before after, (s.pools .default).call_queue = before ++ call :: after ∧
      ∀ call' ∈ before, s.poolOf call' ≠ s.poolOf call := by
  cases p with
  | default => exact ⟨[], rest, hqueue, fun call' hcall' => by cases hcall'⟩
  | reserved i =>
    rw [h.reserved i] at hqueue
    obtain ⟨before, after, heq, hbefore, hfirst, -⟩ := List.filter_eq_cons_iff.mp hqueue
    refine ⟨before, after, heq, fun call' hcall' => ?_⟩
    have hfirst : s.poolOf call = .reserved i := by simpa using hfirst
    have hother : s.poolOf call' ≠ .reserved i := by simpa using hbefore call' hcall'
    rw [hfirst]
    exact hother

theorem takeQueued_cons {rest : List Call} (hqueue : (s.pools (s.cthreads t).pool).call_queue = call :: rest) :
    s.takeQueued t = { (s.cthread_call_dequeue call).2.execute t call with served := s.served ++ [(call, s.poolOf call)] } := by
  rw [takeQueued, hqueue]

theorem Inv.takeQueued (h : s.Inv) (hlive : (s.cthreads t).place ≠ .gone) (hbusy : ¬ s.Waits t) (hhand : s.inHand t = none)
    (hstate : (s.cthreads t).thread_state ≠ RPC_C_NO_CTHREAD) (hqueue : (s.pools (s.cthreads t).pool).call_queue ≠ []) :
    (s.takeQueued t).Inv := by
  obtain ⟨call, rest, hcons⟩ := List.exists_cons_of_ne_nil hqueue
  obtain ⟨before, after, hsplit, hfirst⟩ := h.queues.first hcons
  have hmem : call ∈ (s.pools .default).call_queue := by
    rw [hsplit]
    exact List.mem_append_right _ List.mem_cons_self
  obtain ⟨-, hun⟩ := h.queues.cthread_call_dequeue ((h.queues.is_queued call).mpr hmem)
  rw [takeQueued_cons hcons]
  set s₁ := (s.cthread_call_dequeue call).2
  have htables := hun.threads.tables h.tables
  have hthread : s₁.cthreads t = s.cthreads t := by rw [hun.threads.cthreads]
  have hbusy₁ : ¬ s₁.Waits t := fun hw => hbusy ((hun.threads.waits t).mp hw)
  have hhand₁ : s₁.inHand t = none := by rw [hun.threads.inHand, hhand]
  obtain ⟨hcount, hcthread⟩ := execute_idle (hun.threads.idle h.idle) call hbusy₁
  refine ⟨(execute_tables htables call (by rw [hthread]; exact hlive) (by rw [hthread]; exact hstate)).congr
      (fun _ => rfl) (fun _ => rfl) rfl rfl, ⟨hcount, hcthread⟩,
    (hun.threads.control h.control).congr (fun _ => rfl) (fun _ => rfl) rfl rfl rfl,
    (hun.queues h.queues).congr (fun _ => rfl) rfl rfl fun _ _ _ t' _ hb => ?_, ?_, hun.history.astray.trans h.astray⟩
  · by_cases hne : t' = t
    · rw [hne]
      exact execute_busy call
    · exact (busy_setCthread_of_ne _ hne).mpr hb
  · have hnodup : (s.pools .default).call_queue.Nodup := by
      have hn := h.kept.apart.nodup .queued
      simpa [Desk.jobs, desk, Function.comp_def] using hn
    have hrest : s₁.desk.queue = before.map (fun c => (c, s.poolOf c)) ++ after.map (fun c => (c, s.poolOf c)) := by
      have hnot : call ∉ before ∧ call ∉ after := by
        rw [hsplit] at hnodup
        have hn := (List.nodup_cons.mp (List.nodup_middle.mp hnodup)).1
        exact ⟨fun hb => hn (List.mem_append_left _ hb), fun ha => hn (List.mem_append_right _ ha)⟩
      rw [hun.desk_queue]
      simp only [desk, hsplit, List.map_append, List.map_cons, List.filter_append, List.filter_map]
      have hkeep : ∀ calls : List Call, call ∉ calls →
          calls.filter ((fun job : Call × PoolHandle => decide (job.1 ≠ call)) ∘ fun c => (c, s.poolOf c)) = calls := by
        intro calls hcalls
        refine List.filter_eq_self.mpr fun c hc => ?_
        have hne : c ≠ call := by
          rintro rfl
          exact hcalls hc
        simpa using hne
      rw [hkeep before hnot.1, List.filter_cons_of_neg (by simp), List.filter_map, hkeep after hnot.2]
    have hdesk : ({ s₁.execute t call with served := s.served ++ [(call, s.poolOf call)] } : Cthreads).desk =
        s.desk.serve call (s.poolOf call) t (before.map (fun c => (c, s.poolOf c)) ++ after.map (fun c => (c, s.poolOf c))) := by
      have hhand' : (s₁.execute t call).inHand = s.inHand := by
        rw [inHand_execute, ← hun.threads.inHand, ← hhand₁, Function.update_eq_self]
      rw [← hrest]
      simp only [desk, Desk.serve]
      rw [← hun.history.accepted, ← hhand', ← hun.history.started, ← hun.history.logged, ← hun.history.dequeued]
      rfl
    rw [hdesk]
    refine h.kept.serve ?_ ?_ t
    · simp only [desk, hsplit, List.map_append, List.map_cons]
    · intro job hjob
      obtain ⟨call', hcall', rfl⟩ := List.mem_map.mp hjob
      exact hfirst call' hcall'

theorem Inv.startExecutor (h : s.Inv) (hcreated : (s.cthreads t).place = .created) : (s.startExecutor t).Inv := by
  have hfits := h.tables.fits t
  rw [cthread_elt_t.Fits, hcreated] at hfits
  have hlive : (s.cthreads t).place ≠ .gone := by
    rw [hcreated]
    exact fun hplace => by cases hplace
  have hbusy : ¬ s.Waits t := by
    rw [Waits, hcreated]
    rintro ⟨-, hplace | hplace⟩ <;> cases hplace
  by_cases hqueue : (s.pools (s.cthreads t).pool).call_queue = []
  · rw [startExecutor_eq hfits hqueue]
    exact h.parked hlive hbusy (inHand_idle hfits) hqueue
  · rw [Cthreads.startExecutor, if_neg hqueue]
    exact h.takeQueued hlive hbusy (inHand_idle hfits) (by rw [hfits]; decide) hqueue

theorem Inv.finishCall (h : s.Inv) (hexecuting : (s.cthreads t).place = .executing call) : (s.finishCall t).Inv := by
  have hfits := h.tables.fits t
  rw [cthread_elt_t.Fits, hexecuting] at hfits
  have hlive : (s.cthreads t).place ≠ .gone := by
    rw [hexecuting]
    exact fun hplace => by cases hplace
  have hbusy : ¬ s.Waits t := by
    rw [Waits, hexecuting]
    rintro ⟨-, hplace | hplace⟩ <;> cases hplace
  have hhand : s.inHand t = none := by
    rw [inHand, hexecuting, if_neg]
    rintro ⟨-, hplace | hplace | hplace⟩ <;> cases hplace
  by_cases hqueue : (s.pools (s.cthreads t).pool).call_queue = []
  · rw [finishCall_eq hqueue]
    exact h.parked hlive hbusy hhand hqueue
  · rw [Cthreads.finishCall, if_neg hqueue]
    exact h.takeQueued hlive hbusy hhand hfits.1 hqueue

end Cthreads

end dce.rpc
