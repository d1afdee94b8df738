import Dce.Rpc.CthreadControl
import Mathlib.Algebra.Order.BigOperators.Group.Finset

open lib

namespace dce.rpc

open thread_state_t

namespace Cthreads

variable {s s' : Cthreads} {t : Cthread} {p : PoolHandle} {call : Call}

theorem initial_inv (h : s.Initial) : s.Inv := by
  obtain ⟨hpools, hthreads, hpvt, hnodup, henabled, hstopping, hastray, haccepted, hstarted, hserved, hlogged, hdequeued⟩ := h
  have hctbl : ∀ p ts, (s.pools p).ctbl ≠ some ts := by
    intro p ts hts
    rw [(hpools p).1] at hts
    cases hts
  have hqueue : ∀ p, (s.pools p).call_queue = [] := fun p => (hpools p).2.2.2.2.1
  have hhand : s.inHand = fun _ => none := by
    funext t
    rw [inHand, if_neg]
    rw [(hthreads t).1]
    exact fun hactive => thread_state_t.noConfusion hactive.1
  refine ⟨⟨?_, ?_, ?_, ?_, ?_⟩, ⟨?_, ?_⟩, ⟨?_, ?_, ?_, hnodup, ?_⟩, ⟨?_, ?_, ?_⟩, ?_, hastray⟩
  · exact fun p ts hts => absurd hts (hctbl p ts)
  · exact fun p ts hts => absurd hts (hctbl p ts)
  · exact fun t hlive => absurd (hthreads t).2 hlive
  · exact fun p ts hts => absurd hts (hctbl p ts)
  · intro t
    rw [cthread_elt_t.Fits, (hthreads t).2]
    exact (hthreads t).1
  · exact fun p ts hts => absurd hts (hctbl p ts)
  · exact fun p ts hts => absurd hts (hctbl p ts)
  · exact fun htrue => Bool.noConfusion (henabled.symm.trans htrue)
  · exact fun _ _ p _ => (hpools p).1
  · intro i hi
    rw [hstopping] at hi
    cases hi
  · exact fun ts hts => absurd hts (hctbl _ ts)
  · intro call
    rw [hpvt, hqueue]
    simp
  · intro i
    rw [hqueue, hqueue, List.filter_nil]
  · exact fun hne => absurd (hqueue _) hne
  · have hdesk : s.desk = Desk.empty := by
      simp only [desk, Desk.empty, haccepted, hhand, hqueue, hstarted, hserved, hlogged, hdequeued, List.map_nil]
    rw [hdesk]
    exact Desk.kept_empty

/-- The condition under which no call is lost. The server has threads. A call comes when the threads that are marked idle
wait, as far as a table has to be searched. A pool is told to stop when its threads have started what they were assigned,
and none is freed while the server waits for its threads. -/
def Allowed (s : Cthreads) : CthreadAction → Prop
  | .start_all n => n % 2 ^ 16 ≠ 0
  | .stop_all => s.NoneInHand .default ∧ ∀ i ∈ s.cthread_reserved_pools, s.NoneInHand (.reserved i)
  | .free_thread_pool i => s.NoneInHand (.reserved i) ∧ s.stopping ≠ some (.reserved i)
  | .invoke _ p => s.cthread_invoke_enabled = true → s.SearchSound p ∧ ((s.pools p).n_idle = 0 → s.SearchSound .default)
  | _ => True

instance (s : Cthreads) (p : PoolHandle) : Decidable (s.SearchSound p) :=
  decidable_of_iff ((s.pools p).idle_cthread = none → 0 < (s.pools p).n_idle → ∀ t ∈ (s.firstIdle p).toList, s.Waits t) (by
    simp [SearchSound])

instance (s : Cthreads) (action : CthreadAction) : Decidable (s.Allowed action) :=
  match action with
  | .start_all _ => inferInstanceAs (Decidable (_ ≠ _))
  | .stop_all => inferInstanceAs (Decidable (_ ∧ ∀ i ∈ _, _))
  | .free_thread_pool _ => inferInstanceAs (Decidable (_ ∧ _ ≠ _))
  | .invoke _ _ => inferInstanceAs (Decidable (_ = true → _ ∧ (_ = 0 → _)))
  | .stopped => .isTrue trivial
  | .dequeue _ => .isTrue trivial
  | .start _ => .isTrue trivial
  | .wake _ => .isTrue trivial
  | .wakeEarly _ => .isTrue trivial
  | .finish _ => .isTrue trivial

theorem Inv.wakeEarly (h : s.Inv) (hwaiting : (s.cthreads t).place = .waiting) :
    (s.setCthread t { s.cthreads t with place := .woken }).Inv := by
  have hfits := h.tables.fits t
  rw [cthread_elt_t.Fits, hwaiting] at hfits
  have hwaits : s.Waits t := ⟨hfits.1, .inl hwaiting⟩
  refine h.setCthread (h.tables.setCthread rfl (.inl hfits.1) (by rw [hwaiting]; simp) fun hgone => by cases hgone)
    (h.idle.setCthread _ ?_) (fun hb => hb.2 hwaits) (inHand_idle hfits.1) (inHand_idle ?_)
  · rw [waits_setCthread_self]
    exact ⟨fun _ => hwaits, fun _ => ⟨hfits.1, .inr rfl⟩⟩
  · rw [setCthread_cthreads, if_pos rfl, hfits.1]

theorem Inv.step (h : s.Inv) {action : CthreadAction} (hallowed : s.Allowed action) (hstep : cthreadStep s action = some s') :
    s'.Inv := by
  rw [cthreadStep.eq_def, if_neg (by rw [h.astray]; decide)] at hstep
  cases action with
  | start_all n =>
    obtain ⟨hnot, hstep⟩ := Option.ite_none_left_eq_some.mp hstep
    obtain rfl := Option.some.inj hstep
    refine h.rpc__cthread_start_all hallowed ?_ ?_
    · simpa using fun htrue => hnot (.inl htrue)
    · simpa using fun hsome => hnot (.inr (.inl hsome))
  | stop_all =>
    obtain ⟨-, hstep⟩ := Option.ite_none_right_eq_some.mp hstep
    obtain rfl := Option.some.inj hstep
    refine h.rpc__cthread_stop_all ?_
    rintro p (rfl | ⟨i, hi, rfl⟩)
    · exact hallowed.1
    · exact hallowed.2 i hi
  | stopped =>
    cases hstopping : s.stopping with
    | none => simp [hstopping] at hstep
    | some p =>
      simp only [hstopping] at hstep
      obtain ⟨hexited, hstep⟩ := Option.ite_none_right_eq_some.mp hstep
      obtain rfl := Option.some.inj hstep
      exact h.poolStopped hstopping hexited
  | free_thread_pool i =>
    obtain ⟨-, hstep⟩ := Option.ite_none_right_eq_some.mp hstep
    obtain rfl := Option.some.inj hstep
    exact h.rpc_server_free_thread_pool hallowed.1 hallowed.2
  | invoke call p =>
    cases p with
    | default =>
      obtain ⟨hfresh, hstep⟩ := Option.ite_none_left_eq_some.mp hstep
      obtain rfl := Option.some.inj hstep
      exact h.rpc__cthread_invoke_null (.inl rfl) hfresh hallowed
    | reserved i =>
      obtain ⟨hnot, hstep⟩ := Option.ite_none_left_eq_some.mp hstep
      obtain rfl := Option.some.inj hstep
      have hlisted : i ∈ s.cthread_reserved_pools := by
        by_contra hi
        exact hnot (.inr hi)
      exact h.rpc__cthread_invoke_null (.inr ⟨i, hlisted, rfl⟩) (fun hold => hnot (.inl hold)) hallowed
  | dequeue call =>
    obtain rfl := Option.some.inj hstep
    exact h.rpc__cthread_dequeue call
  | start t =>
    obtain ⟨hcreated, hstep⟩ := Option.ite_none_right_eq_some.mp hstep
    obtain rfl := Option.some.inj hstep
    exact h.startExecutor hcreated
  | wake t =>
    obtain ⟨hwoken, hstep⟩ := Option.ite_none_right_eq_some.mp hstep
    obtain rfl := Option.some.inj hstep
    exact h.proceed hwoken
  | wakeEarly t =>
    obtain ⟨hwaiting, hstep⟩ := Option.ite_none_right_eq_some.mp hstep
    obtain rfl := Option.some.inj hstep
    exact h.wakeEarly hwaiting
  | finish t =>
    cases hplace : (s.cthreads t).place with
    | executing call =>
      simp only [hplace] at hstep
      obtain rfl := Option.some.inj hstep
      exact h.finishCall hplace
    | created | waiting | woken | gone => simp [hplace] at hstep

/-- The steps that the executors take on their own. -/
def executorStep : CthreadAction → Bool
  | .start _ | .wake _ | .finish _ => true
  | _ => false

/-- What an executor at a place has still to do before it waits, short of the calls that queue. -/
def Place.left : Place → ℕ
  | .created => 2
  | .woken => 2
  | .executing _ => 1
  | .waiting => 0
  | .gone => 0

def work (s : Cthreads) : ℕ :=
  ∑ t ∈ Finset.range s.n_cthreads, Place.left (s.cthreads t).place + (s.pools .default).call_queue.length

theorem sum_range_add_lt {n i : ℕ} {f g : ℕ → ℕ} {a b : ℕ} (hi : i < n) (hother : ∀ j, j ≠ i → f j = g j)
    (hless : f i + a < g i + b) : ∑ j ∈ Finset.range n, f j + a < ∑ j ∈ Finset.range n, g j + b := by
  have hmem : i ∈ Finset.range n := Finset.mem_range.mpr hi
  have hrest : ∑ j ∈ (Finset.range n).erase i, f j = ∑ j ∈ (Finset.range n).erase i, g j :=
    Finset.sum_congr rfl fun j hj => hother j (Finset.ne_of_mem_erase hj)
  rw [← Finset.add_sum_erase _ f hmem, ← Finset.add_sum_erase _ g hmem, hrest]
  omega

theorem work_lt (hn : s'.n_cthreads = s.n_cthreads) (ht : t < s.n_cthreads)
    (hother : ∀ t', t' ≠ t → s'.cthreads t' = s.cthreads t')
    (hless : Place.left (s'.cthreads t).place + (s'.pools .default).call_queue.length <
      Place.left (s.cthreads t).place + (s.pools .default).call_queue.length) : s'.work < s.work := by
  rw [work, work, hn]
  exact sum_range_add_lt (f := fun t' => Place.left (s'.cthreads t').place) (g := fun t' => Place.left (s.cthreads t').place) ht
    (fun t' hne => by simp only [hother t' hne]) hless

theorem Tables.lt (h : s.Tables) (hlive : (s.cthreads t).place ≠ .gone) : t < s.n_cthreads := by
  obtain ⟨ts, hts, ht⟩ := h.live t hlive
  exact (h.pool _ ts hts t ht).2

theorem parked_work (h : s.Tables) (hlive : (s.cthreads t).place ≠ .gone) (hleft : 0 < Place.left (s.cthreads t).place) :
    (s.parked t).work < s.work := by
  refine work_lt rfl (h.lt hlive) (fun t' hne => by rw [parked_cthreads, if_neg hne]) ?_
  have hqueue : ((s.parked t).pools .default).call_queue = (s.pools .default).call_queue := by
    rw [parked_pool]
    split <;> rfl
  have hrest : Place.left ((s.parked t).cthreads t).place = 0 := by
    rw [parked_cthreads, if_pos rfl]
    split <;> rfl
  rw [hqueue, hrest]
  omega

theorem takeQueued_work (h : s.Tables) (hqueues : s.Queues) (hlive : (s.cthreads t).place ≠ .gone)
    (hleft : 0 < Place.left (s.cthreads t).place) (hqueue : (s.pools (s.cthreads t).pool).call_queue ≠ []) :
    (s.takeQueued t).work < s.work := by
  obtain ⟨call, rest, hcons⟩ := List.exists_cons_of_ne_nil hqueue
  obtain ⟨before, after, hsplit, -⟩ := hqueues.first hcons
  have hmem : call ∈ (s.pools .default).call_queue := by
    rw [hsplit]
    exact List.mem_append_right _ List.mem_cons_self
  obtain ⟨-, hun⟩ := hqueues.cthread_call_dequeue ((hqueues.is_queued call).mpr hmem)
  rw [takeQueued_cons hcons]
  have hlt : ((s.pools .default).call_queue.filter (· ≠ call)).length < (s.pools .default).call_queue.length :=
    List.length_filter_lt_length_iff_exists.mpr ⟨call, hmem, by simp⟩
  refine work_lt hun.threads.n_cthreads (h.lt hlive) (fun t' hne => ?_) ?_
  · change ((s.cthread_call_dequeue call).2.execute t call).cthreads t' = _
    rw [execute_cthreads, if_neg hne, hun.threads.cthreads]
  · change Place.left (((s.cthread_call_dequeue call).2.execute t call).cthreads t).place +
      ((s.cthread_call_dequeue call).2.pools .default).call_queue.length < _
    rw [execute_cthreads, if_pos rfl, hun.queue]
    change 1 + _ < _
    omega

theorem Inv.work_step (h : s.Inv) {action : CthreadAction} (hexecutor : executorStep action = true)
    (hstep : cthreadStep s action = some s') : s'.work < s.work := by
  rw [cthreadStep.eq_def, if_neg (by rw [h.astray]; decide)] at hstep
  cases action with
  | start t =>
    obtain ⟨hcreated, hstep⟩ := Option.ite_none_right_eq_some.mp hstep
    obtain rfl := Option.some.inj hstep
    have hlive : (s.cthreads t).place ≠ .gone := by rw [hcreated]; simp
    have hleft : 0 < Place.left (s.cthreads t).place := by rw [hcreated]; decide
    by_cases hqueue : (s.pools (s.cthreads t).pool).call_queue = []
    · have hfits := h.tables.fits t
      rw [cthread_elt_t.Fits, hcreated] at hfits
      rw [Cthreads.startExecutor_eq hfits hqueue]
      exact parked_work h.tables hlive hleft
    · rw [Cthreads.startExecutor, if_neg hqueue]
      exact takeQueued_work h.tables h.queues hlive hleft hqueue
  | wake t =>
    obtain ⟨hwoken, hstep⟩ := Option.ite_none_right_eq_some.mp hstep
    obtain rfl := Option.some.inj hstep
    have hlive : (s.cthreads t).place ≠ .gone := by rw [hwoken]; simp
    have hless : ∀ cthread : cthread_elt_t, Place.left cthread.place < 2 → (s.setCthread t cthread).work < s.work := by
      intro cthread hcthread
      refine work_lt rfl (h.tables.lt hlive) (fun t' hne => by rw [setCthread_cthreads, if_neg hne]) ?_
      rw [setCthread_cthreads, if_pos rfl, setCthread_pools, hwoken]
      exact Nat.add_lt_add_right hcthread _
    have hfits := h.tables.fits t
    rw [cthread_elt_t.Fits, hwoken] at hfits
    obtain hidle | ⟨hactive, hrun, call, hcall⟩ := hfits
    · cases hstop : (s.pools (s.cthreads t).pool).stop with
      | true =>
        rw [proceed_stop hstop]
        exact hless _ (by change 0 < 2; decide)
      | false =>
        rw [proceed_wait hstop hidle]
        exact hless _ (by change 0 < 2; decide)
    · rw [proceed_execute hrun hactive hcall]
      exact hless { s.cthreads t with call_rep := some call, place := .executing call } (by change 1 < 2; decide)
  | finish t =>
    cases hplace : (s.cthreads t).place with
    | executing call =>
      simp only [hplace] at hstep
      obtain rfl := Option.some.inj hstep
      have hlive : (s.cthreads t).place ≠ .gone := by rw [hplace]; simp
      have hleft : 0 < Place.left (s.cthreads t).place := by rw [hplace]; exact Nat.one_pos
      by_cases hqueue : (s.pools (s.cthreads t).pool).call_queue = []
      · rw [finishCall_eq hqueue]
        exact parked_work h.tables hlive hleft
      · rw [Cthreads.finishCall, if_neg hqueue]
        exact takeQueued_work h.tables h.queues hlive hleft hqueue
    | created | waiting | woken | gone => simp [hplace] at hstep
  | start_all | stop_all | stopped | free_thread_pool | invoke | dequeue | wakeEarly => cases hexecutor

theorem allowed_of_executorStep {action : CthreadAction} (hexecutor : executorStep action = true) : s.Allowed action := by
  cases action with
  | start t => exact trivial
  | wake t => exact trivial
  | finish t => exact trivial
  | start_all | stop_all | stopped | free_thread_pool | invoke | dequeue | wakeEarly => cases hexecutor

theorem Inv.settles {actions : List CthreadAction} : ∀ {s : Cthreads}, s.Inv → (∀ action ∈ actions, executorStep action = true) →
    ∀ {s'}, cthreadSystem.exec s actions = some s' → s'.work + actions.length ≤ s.work := by
  induction actions with
  | nil =>
    intro s _ _ s' hexec
    obtain rfl := Option.some.inj hexec
    exact Nat.le_refl _
  | cons action actions ih =>
    intro s h hexecutor s' hexec
    rw [System.exec_cons] at hexec
    obtain ⟨mid, hmid, hrest⟩ := Option.bind_eq_some_iff.mp hexec
    have hfirst := hexecutor action List.mem_cons_self
    have hless := h.work_step hfirst hmid
    have hlater := ih (h.step (allowed_of_executorStep hfirst) hmid)
      (fun action' haction' => hexecutor action' (List.mem_cons_of_mem _ haction')) hrest
    rw [List.length_cons]
    omega

def Quiet (s : Cthreads) : Prop := ∀ t < s.n_cthreads, (s.cthreads t).place = .waiting ∨ (s.cthreads t).place = .gone

instance (s : Cthreads) : Decidable s.Quiet := inferInstanceAs (Decidable (∀ t < _, _))

theorem Inv.progress (h : s.Inv) (hquiet : ¬ s.Quiet) : ∃ action, executorStep action = true ∧ (cthreadStep s action).isSome := by
  rw [Quiet] at hquiet
  push Not at hquiet
  obtain ⟨t, -, hnot, hlive⟩ := hquiet
  have hastray : ¬ s.astray = true := by rw [h.astray]; decide
  cases hplace : (s.cthreads t).place with
  | created => exact ⟨.start t, rfl, by simp [cthreadStep, hastray, hplace]⟩
  | woken => exact ⟨.wake t, rfl, by simp [cthreadStep, hastray, hplace]⟩
  | executing call => exact ⟨.finish t, rfl, by simp [cthreadStep, hastray, hplace]⟩
  | waiting => exact absurd hplace hnot
  | gone => exact absurd hplace hlive

theorem Inv.quiet (h : s.Inv) (hquiet : s.Quiet) : (s.pools .default).call_queue = [] ∧ ∀ t, s.inHand t = none := by
  have hrest : ∀ t, (s.cthreads t).place = .waiting ∨ (s.cthreads t).place = .gone := by
    intro t
    by_cases hlive : (s.cthreads t).place = .gone
    · exact .inr hlive
    · exact hquiet t (h.tables.lt hlive)
  constructor
  · by_contra hne
    obtain ⟨ts, -, t, -, hlive, hbusy⟩ := h.queues.busy hne
    have hwaiting := (hrest t).resolve_right hlive
    have hfits := h.tables.fits t
    rw [cthread_elt_t.Fits, hwaiting] at hfits
    exact hbusy ⟨hfits.1, .inl hwaiting⟩
  · intro t
    have hfits := h.tables.fits t
    obtain hwaiting | hgone := hrest t
    · rw [cthread_elt_t.Fits, hwaiting] at hfits
      exact inHand_idle hfits.1
    · rw [inHand, hgone, if_neg (by simp)]

/-- What is promised of the calls. -/
structure Sound (s : Cthreads) : Prop where
  /-- No call is run twice. -/
  once : (s.started.map Prod.fst).Nodup
  /-- Only accepted calls are run, and none that was dequeued. -/
  accepted : ∀ job ∈ s.started, job.1 ∈ s.accepted ∧ job.1 ∉ s.dequeued
  /-- A call that has been neither run nor dequeued is in the queue or assigned to a thread that keeps it. -/
  kept : ∀ call ∈ s.accepted, (∃ t, (call, t) ∈ s.started) ∨ call ∈ s.dequeued ∨ call ∈ (s.pools .default).call_queue ∨
    ∃ t, s.inHand t = some call
  /-- The queued calls of a pool start in the order they were queued, those left out that were dequeued. -/
  order : ∀ p, Desk.ofKind p s.served ++ Desk.ofKind p s.desk.queue =
    (Desk.ofKind p s.logged).filter fun job => job.1 ∉ s.dequeued
  /-- The call that a thread executes is the one it was given. -/
  executing : ∀ t call, (s.cthreads t).place = .executing call → (s.cthreads t).call_rep = some call
  /-- The executors take no more steps on their own than there is work. -/
  settles : ∀ actions s', (∀ action ∈ actions, executorStep action = true) → cthreadSystem.exec s actions = some s' →
    actions.length ≤ s.work
  /-- They can go on until they are all at rest. -/
  progress : ¬ s.Quiet → ∃ action, executorStep action = true ∧ (cthreadSystem.step s action).isSome
  /-- Then every accepted call has been run or dequeued. -/
  done : s.Quiet → ∀ call ∈ s.accepted, (∃ t, (call, t) ∈ s.started) ∨ call ∈ s.dequeued

theorem Inv.sound (h : s.Inv) : s.Sound := by
  have hmem : ∀ call t, call ∈ s.desk.jobs (.started t) ↔ (call, t) ∈ s.started := by
    intro call t
    simp [Desk.jobs, desk]
  refine ⟨h.kept.started_nodup, ?_, ?_, h.kept.order, ?_, ?_, h.progress, ?_⟩
  · rintro ⟨call, t⟩ hjob
    have hstarted := (hmem call t).mpr hjob
    refine ⟨(h.kept.all call).mpr ⟨_, hstarted⟩, fun hdequeued => ?_⟩
    cases h.kept.apart.unique hstarted (show call ∈ s.desk.jobs .withdrawn from hdequeued)
  · intro call hcall
    obtain ⟨x, hx⟩ := (h.kept.all call).mp hcall
    cases x with
    | queued =>
      refine .inr (.inr (.inl ?_))
      simpa [Desk.jobs, desk] using hx
    | assigned t =>
      refine .inr (.inr (.inr ⟨t, ?_⟩))
      simpa [Desk.jobs, desk] using hx
    | started t => exact .inl ⟨t, (hmem call t).mp hx⟩
    | withdrawn => exact .inr (.inl hx)
  · intro t call hexecuting
    have hfits := h.tables.fits t
    rw [cthread_elt_t.Fits, hexecuting] at hfits
    exact hfits.2
  · intro actions s' hexecutor hexec
    have hwork := h.settles hexecutor hexec
    omega
  · intro hquiet call hcall
    obtain ⟨hqueue, hhand⟩ := h.quiet hquiet
    obtain ⟨t, ht⟩ | hdequeued := h.kept.done (by simp [desk, hqueue]) hhand hcall
    · exact .inl ⟨t, (hmem call t).mp ht⟩
    · exact .inr hdequeued

end Cthreads

open Cthreads

/-- In every run whose steps meet the condition, the call threads execute every accepted call exactly once. -/
theorem calls_executed_once {s : Cthreads} (hreach : (cthreadSystem.restrict Cthreads.Allowed).Reachable s) : s.Sound := by
  have hinv : s.Inv := hreach.invariant (P := Inv) (fun s hs => initial_inv hs) fun s action s' h hstep => by
    obtain ⟨hallowed, hstep⟩ := System.restrict_step hstep
    exact h.step hallowed hstep
  exact hinv.sound

def cthreadServer : Cthreads where
  pools _ :=
    { n_threads := 1
      n_idle := 0
      ctbl := none
      idle_cthread := none
      n_queued := 0
      max_queued := 4
      call_queue := []
      free_queue := 0
      stop := false }
  cthreads _ := { thread_state := RPC_C_NO_CTHREAD, pool := .default, call_rep := none, place := .gone }
  n_cthreads := 0
  pvt _ := { is_queued := false, qelt := none }
  cthread_reserved_pools := [0]
  cthread_default_call_queue_size := 0
  cthread_invoke_enabled := false
  stopping := none
  astray := false
  accepted := []
  started := []
  served := []
  logged := []
  dequeued := []

theorem cthreadServer_initial : cthreadServer.Initial := by
  refine ⟨fun p => ⟨rfl, rfl, rfl, rfl, rfl, rfl⟩, fun t => ⟨rfl, rfl⟩, fun call => rfl, ?_, rfl, rfl, rfl, rfl, rfl, rfl, rfl, rfl⟩
  exact List.nodup_singleton 0

def callsQueued : List CthreadAction := [.start_all 1, .start 0, .start 1, .invoke 0 (.reserved 0), .invoke 1 (.reserved 0),
  .invoke 2 (.reserved 0), .invoke 3 .default, .invoke 4 (.reserved 0), .dequeue 2, .wake 1, .wake 0, .finish 0, .finish 1,
  .finish 0, .finish 1, .stop_all, .wake 0, .wake 1, .stopped, .stopped, .start_all 2]

theorem calls_executed_once_callsQueued : ∃ s : Cthreads, s.accepted = [0, 1, 2, 3, 4] ∧ s.dequeued = [2] ∧
    s.started.length = 4 ∧ s.cthread_invoke_enabled = true ∧ s.Sound := by
  obtain ⟨s, hreach, hs⟩ := (cthreadSystem.restrict Cthreads.Allowed).exists_reachable_of_exec callsQueued
    (P := fun s => s.accepted == [0, 1, 2, 3, 4] && s.dequeued == [2] && s.started.length == 4 && s.cthread_invoke_enabled)
    cthreadServer_initial (by decide +kernel)
  simp only [Bool.and_eq_true, beq_iff_eq] at hs
  exact ⟨s, hs.1.1.1, hs.1.1.2, hs.1.2, hs.2, calls_executed_once hreach⟩

def assignedCallOverwritten : List CthreadAction := [.start_all 3, .start 3, .start 1, .start 2, .invoke 0 .default,
  .invoke 1 .default, .invoke 2 .default, .start 0, .wake 2, .finish 2, .finish 0]

/-- The second call is accepted, and all executors have come to rest without running it. -/
theorem accepted_call_lost : ∃ s, cthreadSystem.Reachable s ∧ s.Quiet ∧ 1 ∈ s.accepted ∧ 1 ∉ s.started.map Prod.fst ∧
    1 ∉ s.dequeued := by
  obtain ⟨s, hreach, hs⟩ := cthreadSystem.exists_reachable_of_exec assignedCallOverwritten
    (P := fun s => decide (s.Quiet ∧ 1 ∈ s.accepted ∧ 1 ∉ s.started.map Prod.fst ∧ 1 ∉ s.dequeued)) cthreadServer_initial
    (by decide +kernel)
  exact ⟨s, hreach, of_decide_eq_true hs⟩

end dce.rpc
