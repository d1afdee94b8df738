import Dce.Rpc.CthreadQueue

open lib

set_option linter.style.nameCheck false

namespace dce.rpc

open thread_state_t

namespace Cthreads

variable {s s' : Cthreads} {t : Cthread} {p : PoolHandle} {call : Call} {ts : List Cthread}

/-- Where a pool has to search its table, the first thread that is marked idle does wait. A thread is marked so before it
runs. -/
def SearchSound (s : Cthreads) (p : PoolHandle) : Prop :=
  (s.pools p).idle_cthread = none → 0 < (s.pools p).n_idle → ∀ t, s.firstIdle p = some t → s.Waits t

def activate (s : Cthreads) (p : PoolHandle) (t : Cthread) : Cthreads :=
  (s.setPool p { s.pools p with n_idle := (s.pools p).n_idle - 1, idle_cthread := none }).setCthread t
    { s.cthreads t with thread_state := RPC_C_ACTIVE_CTHREAD }

/-- A waiting thread has been given a new call and signalled. -/
def handOver (s : Cthreads) (p : PoolHandle) (t : Cthread) (call : Call) : Cthreads :=
  { (s.setPool p { s.pools p with n_idle := (s.pools p).n_idle - 1, idle_cthread := none }).setCthread t
      { s.cthreads t with thread_state := RPC_C_ACTIVE_CTHREAD, call_rep := some call, place := .woken } with
    accepted := s.accepted ++ [call] }

theorem Inv.assign_cases (h : s.Inv) (hts : (s.pools p).ctbl = some ts) (hrun : (s.pools p).stop = false)
    (hsearch : s.SearchSound p) :
    (∃ t ∈ ts, s.Waits t ∧ s.CTHREAD_POOL_ASSIGN_THREAD p = (some t, s.activate p t)) ∨
      s.CTHREAD_POOL_ASSIGN_THREAD p = (none, s) ∧ ∀ t ∈ ts, ¬ s.Waits t := by
  cases hidle : (s.pools p).idle_cthread with
  | some t =>
    obtain ⟨hmem, hwaits⟩ := h.idle.cthread p ts hts hrun t hidle
    refine .inl ⟨t, hmem, hwaits, ?_⟩
    simp only [CTHREAD_POOL_ASSIGN_THREAD, hidle, activate]
  | none =>
    have hassign : s.CTHREAD_POOL_ASSIGN_THREAD p = s.cthread_pool_assign_thread p := by
      simp only [CTHREAD_POOL_ASSIGN_THREAD, hidle]
    rw [hassign]
    by_cases hpos : 0 < (s.pools p).n_idle
    · cases hfirst : s.firstIdle p with
      | some t =>
        have hmem : t ∈ ts := by
          rw [firstIdle, hts] at hfirst
          exact List.mem_of_find?_eq_some hfirst
        refine .inl ⟨t, hmem, hsearch hidle hpos t hfirst, ?_⟩
        simp only [cthread_pool_assign_thread, if_pos hpos, hidle, hfirst, activate]
      | none =>
        refine .inr ⟨by simp only [cthread_pool_assign_thread, if_pos hpos, hidle, hfirst], fun t ht hwaits => ?_⟩
        rw [firstIdle, hts, Option.getD_some, List.find?_eq_none] at hfirst
        exact hfirst t ht (by simpa using hwaits.1)
    · refine .inr ⟨by simp only [cthread_pool_assign_thread, if_neg hpos], fun t ht hwaits => hpos ?_⟩
      rw [h.idle.count p ts hts hrun]
      exact List.countP_pos_iff.mpr ⟨t, ht, by simpa using hwaits⟩

theorem Inv.n_idle_eq_zero (h : s.Inv) (hts : (s.pools p).ctbl = some ts) (hrun : (s.pools p).stop = false)
    (hnone : ∀ t ∈ ts, ¬ s.Waits t) : (s.pools p).n_idle = 0 := by
  rw [h.idle.count p ts hts hrun]
  exact List.countP_eq_zero.mpr fun t ht => by simpa using hnone t ht

theorem handOver_pools (p' : PoolHandle) : (s.handOver p t call).pools p' =
    if p' = p then { s.pools p with n_idle := (s.pools p).n_idle - 1, idle_cthread := none } else s.pools p' :=
  setPool_pools ..

theorem handOver_cthreads (t' : Cthread) : (s.handOver p t call).cthreads t' =
    if t' = t then { s.cthreads t with thread_state := RPC_C_ACTIVE_CTHREAD, call_rep := some call, place := .woken }
    else s.cthreads t' := setCthread_cthreads ..

theorem handOver_ctbl (p' : PoolHandle) : ((s.handOver p t call).pools p').ctbl = (s.pools p').ctbl := by
  rw [handOver_pools]
  split
  · next heq => rw [heq]
  · rfl

theorem handOver_stop (p' : PoolHandle) : ((s.handOver p t call).pools p').stop = (s.pools p').stop := by
  rw [handOver_pools]
  split
  · next heq => rw [heq]
  · rfl

theorem handOver_call_queue (p' : PoolHandle) : ((s.handOver p t call).pools p').call_queue = (s.pools p').call_queue := by
  rw [handOver_pools]
  split
  · next heq => rw [heq]
  · rfl

theorem handOver_waits_of_ne {t' : Cthread} (hne : t' ≠ t) : (s.handOver p t call).Waits t' ↔ s.Waits t' :=
  waits_setCthread_of_ne _ hne

variable (p call) in
theorem handOver_not_waits : ¬ (s.handOver p t call).Waits t := by
  rw [Waits, handOver_cthreads, if_pos rfl]
  exact fun hw => thread_state_t.noConfusion hw.1

theorem handOver_tables (h : s.Tables) (hts : (s.pools p).ctbl = some ts) (hrun : (s.pools p).stop = false) (ht : t ∈ ts)
    (hwaits : s.Waits t) : (s.handOver p t call).Tables := by
  have hpool := (h.pool p ts hts t ht).1
  have hlive : (s.cthreads t).place ≠ .gone := by
    intro hgone
    rw [Waits, hgone] at hwaits
    obtain ⟨-, hplace | hplace⟩ := hwaits <;> cases hplace
  have hset : (s.setCthread t
      { s.cthreads t with thread_state := RPC_C_ACTIVE_CTHREAD, call_rep := some call, place := .woken }).Tables := by
    refine h.setCthread rfl ?_ hlive (fun hgone => by cases hgone)
    rw [hpool]
    exact .inr ⟨rfl, hrun, call, rfl⟩
  exact hset.congr handOver_ctbl handOver_stop rfl rfl

theorem handOver_idle (h : s.Idle) (htables : s.Tables) (hts : (s.pools p).ctbl = some ts) (ht : t ∈ ts)
    (hwaits : s.Waits t) : (s.handOver p t call).Idle := by
  have hpool := (htables.pool p ts hts t ht).1
  constructor
  · intro p' ts' hts' hrun'
    rw [handOver_ctbl] at hts'
    rw [handOver_stop] at hrun'
    have hcount := h.count p' ts' hts' hrun'
    rw [handOver_pools]
    split
    · next heq =>
      subst heq
      obtain rfl : ts' = ts := Option.some.inj (hts'.symm.trans hts)
      have hsucc := countP_succ (Q := s.Waits) (htables.nodup _ ts' hts') ht (handOver_not_waits p' call) hwaits
        fun t' hne => (handOver_waits_of_ne hne).symm
      change (s.pools p').n_idle - 1 = _
      rw [hcount, hsucc, Nat.add_sub_cancel]
    · next hne =>
      rw [countP_eq_of_not_mem (htables.not_mem hts' (by rw [hpool]; exact Ne.symm hne)) fun t' hne' => handOver_waits_of_ne hne']
      exact hcount
  · intro p' ts' hts' hrun' t' ht'
    rw [handOver_ctbl] at hts'
    rw [handOver_stop] at hrun'
    rw [handOver_pools] at ht'
    split at ht'
    · cases ht'
    · next hne =>
      obtain ⟨hmem, hw⟩ := h.cthread p' ts' hts' hrun' t' ht'
      have hother : t' ≠ t := by
        rintro rfl
        exact htables.not_mem hts' (by rw [hpool]; exact Ne.symm hne) hmem
      exact ⟨hmem, (handOver_waits_of_ne hother).mpr hw⟩

theorem Inv.handOver (h : s.Inv) (hts : (s.pools p).ctbl = some ts) (hrun : (s.pools p).stop = false) (ht : t ∈ ts)
    (hwaits : s.Waits t) (hfresh : call ∉ s.accepted) : (s.handOver p t call).Inv := by
  refine ⟨handOver_tables h.tables hts hrun ht hwaits, handOver_idle h.idle h.tables hts ht hwaits,
    h.control.congr handOver_ctbl handOver_stop rfl rfl rfl, h.queues.congr handOver_call_queue rfl (handOver_ctbl _) ?_, ?_,
    h.astray⟩
  · intro _ _ _ t' _ hb
    have hne : t' ≠ t := by
      rintro rfl
      exact hb.2 hwaits
    exact (busy_setCthread_of_ne _ hne).mpr hb
  · have hhand : (s.handOver p t call).inHand = Function.update s.inHand t (some call) := by
      funext t'
      by_cases hne : t' = t
      · subst hne
        rw [Function.update_self, inHand, handOver_cthreads, if_pos rfl, if_pos ⟨rfl, .inr (.inr rfl)⟩]
      · rw [Function.update_of_ne hne, inHand, inHand, handOver_cthreads, if_neg hne]
    have hdesk : (s.handOver p t call).desk = s.desk.assign call t := by
      simp only [desk, Desk.assign, hhand, handOver_call_queue]
      rfl
    rw [hdesk]
    exact h.kept.assign hfresh (inHand_idle hwaits.1)

/-- A call for a pool has been queued. -/
structure Enqueued (s s' : Cthreads) (p : PoolHandle) (call : Call) : Prop where
  threads : SameThreads s s'
  history : SameHistory s s'
  queue : ∀ p', (s'.pools p').call_queue = (s.pools p').call_queue ++ if p' = .default ∨ p' = p then [call] else []
  pvt : s'.pvt = Function.update s.pvt call
    { is_queued := true, qelt := match p with | .default => none | .reserved i => some i }

theorem cthread_pool_queue_call_cases (p : PoolHandle) (call : Call) :
    s.cthread_pool_queue_call p call = (false, s) ∨
      ∃ s', s.cthread_pool_queue_call p call = (true, s') ∧ Enqueued s s' p call := by
  by_cases hfull : (s.pools p).max_queued ≤ (s.pools p).n_queued
  · exact .inl (by rw [cthread_pool_queue_call, if_pos hfull])
  · refine .inr ?_
    rw [cthread_pool_queue_call, if_neg hfull]
    cases p with
    | default =>
      refine ⟨_, rfl, ⟨?_, ?_, ?_, ?_, rfl, rfl, rfl, rfl, rfl⟩, ⟨rfl, rfl, rfl, rfl, rfl, rfl⟩, ?_, rfl⟩ <;>
        intro p' <;> cases p' <;> simp [setPool]
    | reserved i =>
      refine ⟨_, rfl, ⟨?_, ?_, ?_, ?_, rfl, rfl, rfl, rfl, rfl⟩, ⟨rfl, rfl, rfl, rfl, rfl, rfl⟩, ?_, rfl⟩ <;>
        intro p' <;> cases p' with
        | default => simp [setPool]
        | reserved j =>
          by_cases hij : j = i
          · subst hij
            simp [setPool]
          · simp [setPool, hij]

section

variable (h : Enqueued s s' p call)

include h

theorem Enqueued.poolOf_self : s'.poolOf call = p := by
  rw [Cthreads.poolOf, h.pvt, Function.update_self]
  cases p <;> rfl

theorem Enqueued.poolOf {call' : Call} (hne : call' ≠ call) : s'.poolOf call' = s.poolOf call' := by
  rw [Cthreads.poolOf, h.pvt, Function.update_of_ne hne, ← Cthreads.poolOf]

theorem Enqueued.default_queue : (s'.pools .default).call_queue = (s.pools .default).call_queue ++ [call] := by
  rw [h.queue, if_pos (.inl rfl)]

theorem Enqueued.poolOf_queued (hnew : call ∉ (s.pools .default).call_queue) {call' : Call}
    (hcall' : call' ∈ (s.pools .default).call_queue) : s'.poolOf call' = s.poolOf call' :=
  h.poolOf (by rintro rfl; exact hnew hcall')

theorem Enqueued.queues (hqueues : s.Queues) (hnew : call ∉ (s.pools .default).call_queue)
    (hbusy : ∃ ts, (s.pools .default).ctbl = some ts ∧ ∃ t ∈ ts, s.Busy t) : s'.Queues where
  is_queued call' := by
    rw [h.pvt, h.default_queue, List.mem_append, List.mem_singleton]
    by_cases hne : call' = call
    · rw [hne, Function.update_self]
      simp
    · rw [Function.update_of_ne hne, hqueues.is_queued]
      simp [hne]
  reserved i := by
    have hold : (s.pools .default).call_queue.filter (fun c => decide (s'.poolOf c = .reserved i)) =
        (s.pools (.reserved i)).call_queue := by
      rw [hqueues.reserved i]
      exact List.filter_congr fun call' hcall' => by rw [h.poolOf_queued hnew hcall']
    rw [h.queue, h.default_queue, List.filter_append, hold]
    by_cases hp : p = .reserved i
    · rw [if_pos (.inr hp.symm), List.filter_cons_of_pos (by simpa [h.poolOf_self] using hp), List.filter_nil]
    · rw [if_neg (by simpa using Ne.symm hp), List.filter_cons_of_neg (by simpa [h.poolOf_self] using hp), List.filter_nil]
  busy _ := by
    obtain ⟨ts, hts, t, ht, hb⟩ := hbusy
    exact ⟨ts, (h.threads.ctbl _).trans hts, t, ht, (h.threads.busy t).mpr hb⟩

end

theorem Inv.enqueue (h : s.Inv) (henqueued : Enqueued s s' p call) (hfresh : call ∉ s.accepted)
    (hbusy : ∃ ts, (s.pools .default).ctbl = some ts ∧ ∃ t ∈ ts, s.Busy t) :
    ({ s' with accepted := s'.accepted ++ [call], logged := s'.logged ++ [(call, p)] } : Cthreads).Inv := by
  have hnew : call ∉ (s.pools .default).call_queue := by
    intro hmem
    refine h.kept.fresh (a := call) hfresh .queued ?_
    simp only [Desk.jobs, desk, List.map_map]
    exact List.mem_map.mpr ⟨call, hmem, rfl⟩
  refine ⟨(henqueued.threads.tables h.tables).congr (fun _ => rfl) (fun _ => rfl) rfl rfl, ?_,
    (henqueued.threads.control h.control).congr (fun _ => rfl) (fun _ => rfl) rfl rfl rfl,
    (henqueued.queues h.queues hnew hbusy).congr (fun _ => rfl) rfl rfl fun _ _ _ _ _ hb => hb, ?_,
    henqueued.history.astray.trans h.astray⟩
  · obtain ⟨hcount, hcthread⟩ := henqueued.threads.idle h.idle
    exact ⟨hcount, hcthread⟩
  · have hqueue : (s'.pools .default).call_queue.map (fun c => (c, s'.poolOf c)) =
        (s.pools .default).call_queue.map (fun c => (c, s.poolOf c)) ++ [(call, p)] := by
      rw [henqueued.default_queue, List.map_append, List.map_singleton, henqueued.poolOf_self]
      congr 1
      exact List.map_congr_left fun call' hcall' => by rw [henqueued.poolOf_queued hnew hcall']
    have hdesk : ({ s' with accepted := s'.accepted ++ [call], logged := s'.logged ++ [(call, p)] } : Cthreads).desk =
        s.desk.enqueue call p := by
      simp only [desk, Desk.enqueue]
      rw [← hqueue, ← henqueued.history.accepted, ← henqueued.threads.inHand, ← henqueued.history.started,
        ← henqueued.history.served, ← henqueued.history.logged, ← henqueued.history.dequeued]
      rfl
    rw [hdesk]
    exact h.kept.enqueue hfresh p

theorem invoke_assigned (hwaits : s.Waits t) (hnot : (s.pvt call).is_queued = false) :
    (let a := s.activate p t
     let s' := { a with pvt := Function.update a.pvt call { a.pvt call with is_queued := false } }
     let s' := s'.setCthread t { s'.cthreads t with call_rep := some call }
     { s'.RPC_COND_SIGNAL t with accepted := s'.accepted ++ [call] }) = s.handOver p t call := by
  have hpvt : Function.update s.pvt call { s.pvt call with is_queued := false } = s.pvt := by
    rw [← hnot, Function.update_eq_self]
  obtain ⟨-, hplace | hplace⟩ := hwaits
  · simp [activate, handOver, RPC_COND_SIGNAL, setCthread, setPool, hplace, hpvt]
  · simp [activate, handOver, RPC_COND_SIGNAL, setCthread, setPool, hplace, hpvt]

theorem Inv.rpc__cthread_invoke_null (h : s.Inv) (hlisted : s.Listed p) (hfresh : call ∉ s.accepted)
    (hsearch : s.cthread_invoke_enabled = true → s.SearchSound p ∧ ((s.pools p).n_idle = 0 → s.SearchSound .default)) :
    (s.rpc__cthread_invoke_null call p).Inv := by
  cases henabled : s.cthread_invoke_enabled with
  | false =>
    rw [Cthreads.rpc__cthread_invoke_null, if_pos (by rw [henabled]; rfl)]
    exact h
  | true =>
    obtain ⟨hsearch, hdefault⟩ := hsearch henabled
    obtain ⟨-, hruns⟩ := h.control.enabled henabled
    obtain ⟨hrun, ts, hts⟩ := hruns p hlisted
    obtain ⟨hrun₀, ts₀, hts₀⟩ := hruns .default (.inl rfl)
    have hnew : call ∉ (s.pools .default).call_queue := by
      intro hmem
      refine h.kept.fresh (a := call) hfresh .queued ?_
      simp only [Desk.jobs, desk, List.map_map]
      exact List.mem_map.mpr ⟨call, hmem, rfl⟩
    have hnot : (s.pvt call).is_queued = false := by
      rw [← Bool.not_eq_true, h.queues.is_queued]
      exact hnew
    have hqueue : (∀ t ∈ ts₀, ¬ s.Waits t) → ∀ s', Enqueued s s' p call →
        ({ s' with accepted := s'.accepted ++ [call], logged := s'.logged ++ [(call, p)] } : Cthreads).Inv := by
      intro hnone s' henqueued
      refine h.enqueue henqueued hfresh ⟨ts₀, hts₀, ?_⟩
      obtain ⟨t, rest, rfl⟩ := List.exists_cons_of_ne_nil (h.control.threads ts₀ hts₀)
      exact ⟨t, List.mem_cons_self, h.tables.stays _ _ hts₀ hrun₀ t List.mem_cons_self, hnone t List.mem_cons_self⟩
    rw [Cthreads.rpc__cthread_invoke_null, if_neg (by rw [henabled]; decide)]
    obtain ⟨t, ht, hwaits, hassign⟩ | ⟨hassign, hnone⟩ := h.assign_cases hts hrun hsearch
    · rw [hassign]
      have hinv := h.handOver hts hrun ht hwaits hfresh
      rw [← invoke_assigned hwaits hnot] at hinv
      exact hinv
    · rw [hassign]
      cases p with
      | default =>
        obtain rfl : ts = ts₀ := Option.some.inj (hts.symm.trans hts₀)
        obtain heq | ⟨s', heq, henqueued⟩ := cthread_pool_queue_call_cases (s := s) .default call
        · simp only [heq]
          exact h
        · simp only [heq]
          exact hqueue hnone s' henqueued
      | reserved i =>
        obtain ⟨t, ht, hwaits, hassign₀⟩ | ⟨hassign₀, hnone₀⟩ :=
          h.assign_cases hts₀ hrun₀ (hdefault (h.n_idle_eq_zero hts hrun hnone))
        · simp only [hassign₀]
          have hinv := h.handOver hts₀ hrun₀ ht hwaits hfresh
          rw [← invoke_assigned hwaits hnot] at hinv
          exact hinv
        · simp only [hassign₀]
          obtain heq | ⟨s', heq, henqueued⟩ := cthread_pool_queue_call_cases (s := s) (.reserved i) call
          · simp only [heq]
            exact h
          · simp only [heq]
            exact hqueue hnone₀ s' henqueued

end Cthreads

end dce.rpc
