import Dce.Rpc.CthreadInvoke

open lib

set_option linter.style.nameCheck false

namespace dce.rpc

open thread_state_t

namespace Cthreads

variable {s s' : Cthreads} {t : Cthread} {p : PoolHandle}

/-- The pools of a list have been started, and nothing else has happened. -/
structure Started (s s' : Cthreads) (ps : List PoolHandle) : Prop where
  tables : s'.Tables
  idle : s'.Idle
  inHand : s'.inHand = s.inHand
  history : SameHistory s s'
  queue : ∀ p, (s'.pools p).call_queue = (s.pools p).call_queue
  others : ∀ p, p ∉ ps → s'.pools p = s.pools p
  running : ∀ p ∈ ps, (s'.pools p).stop = false ∧ ∃ ts, (s'.pools p).ctbl = some ts ∧ ts.length = (s.pools p).n_threads
  pvt : s'.pvt = s.pvt
  reserved_pools : s'.cthread_reserved_pools = s.cthread_reserved_pools
  stopping : s'.stopping = s.stopping

theorem cthread_pool_start_cthreads (t : Cthread) : (s.cthread_pool_start p).cthreads t =
    if s.n_cthreads ≤ t ∧ t < s.n_cthreads + (s.pools p).n_threads then
      { thread_state := RPC_C_IDLE_CTHREAD, pool := p, call_rep := none, place := .created }
    else s.cthreads t := rfl

theorem cthread_pool_start_pools_self : ∃ free_queue, (s.cthread_pool_start p).pools p = { s.pools p with
    ctbl := some (List.range' s.n_cthreads (s.pools p).n_threads)
    n_idle := 0
    idle_cthread := none
    n_queued := 0
    call_queue := []
    free_queue := free_queue
    stop := false } := ⟨_, Function.update_self ..⟩

theorem cthread_pool_start_pools_of_ne {p' : PoolHandle} (hne : p' ≠ p) :
    (s.cthread_pool_start p).pools p' = s.pools p' := Function.update_of_ne hne ..

theorem Tables.cthread_pool_start_cthreads (h : s.Tables) {p' : PoolHandle} {ts : List Cthread}
    (hts : (s.pools p').ctbl = some ts) (ht : t ∈ ts) : (s.cthread_pool_start p).cthreads t = s.cthreads t := by
  have hlt := (h.pool p' ts hts t ht).2
  rw [Cthreads.cthread_pool_start_cthreads, if_neg fun hin => Nat.not_le.mpr hlt hin.1]

theorem Tables.cthread_pool_start (h : s.Tables) (hnone : (s.pools p).ctbl = none) : (s.cthread_pool_start p).Tables := by
  obtain ⟨free_queue, hself⟩ := cthread_pool_start_pools_self (s := s) (p := p)
  have hnew : ∀ t ∈ List.range' s.n_cthreads (s.pools p).n_threads, s.n_cthreads ≤ t ∧ t < s.n_cthreads + (s.pools p).n_threads :=
    fun t ht => List.mem_range'_1.mp ht
  have hold : ∀ p' ts, p' ≠ p → ((s.cthread_pool_start p).pools p').ctbl = some ts → (s.pools p').ctbl = some ts := by
    intro p' ts hne hts
    rwa [cthread_pool_start_pools_of_ne hne] at hts
  have htable : ∀ ts, ((s.cthread_pool_start p).pools p).ctbl = some ts → ts = List.range' s.n_cthreads (s.pools p).n_threads := by
    intro ts hts
    rw [hself] at hts
    exact (Option.some.inj hts).symm
  constructor
  · intro p' ts hts
    by_cases hne : p' = p
    · subst hne
      rw [htable ts hts]
      exact List.nodup_range'
    · exact h.nodup p' ts (hold p' ts hne hts)
  · intro p' ts hts t ht
    by_cases hne : p' = p
    · subst hne
      rw [htable ts hts] at ht
      rw [Cthreads.cthread_pool_start_cthreads, if_pos (hnew t ht)]
      exact ⟨rfl, (hnew t ht).2⟩
    · have hbefore := hold p' ts hne hts
      rw [h.cthread_pool_start_cthreads hbefore ht]
      exact ⟨(h.pool p' ts hbefore t ht).1, Nat.lt_of_lt_of_le (h.pool p' ts hbefore t ht).2 (Nat.le_add_right ..)⟩
  · intro t
    rw [Cthreads.cthread_pool_start_cthreads]
    split
    · next hin =>
      refine fun _ => ⟨_, by rw [hself], List.mem_range'_1.mpr hin⟩
    · intro hlive
      obtain ⟨ts, hts, ht⟩ := h.live t hlive
      refine ⟨ts, ?_, ht⟩
      rw [cthread_pool_start_pools_of_ne]
      · exact hts
      · rintro heq
        rw [heq, hnone] at hts
        cases hts
  · intro p' ts hts hrun t ht
    by_cases hne : p' = p
    · subst hne
      rw [htable ts hts] at ht
      rw [Cthreads.cthread_pool_start_cthreads, if_pos (hnew t ht)]
      exact fun hplace => by cases hplace
    · have hbefore := hold p' ts hne hts
      rw [h.cthread_pool_start_cthreads hbefore ht]
      rw [cthread_pool_start_pools_of_ne hne] at hrun
      exact h.stays p' ts hbefore hrun t ht
  · intro t
    rw [Cthreads.cthread_pool_start_cthreads]
    split
    · exact rfl
    · by_cases hne : (s.cthreads t).pool = p
      · have hgone : (s.cthreads t).place = .gone := by
          by_contra hlive
          obtain ⟨ts, hts, -⟩ := h.live t hlive
          rw [hne, hnone] at hts
          cases hts
        have hfits := h.fits t
        rw [cthread_elt_t.Fits, hgone] at hfits ⊢
        exact hfits
      · rw [cthread_pool_start_pools_of_ne hne]
        exact h.fits t

theorem Idle.cthread_pool_start (h : s.Idle) (htables : s.Tables) : (s.cthread_pool_start p).Idle := by
  obtain ⟨free_queue, hself⟩ := cthread_pool_start_pools_self (s := s) (p := p)
  have hwaits : ∀ {p' ts}, (s.pools p').ctbl = some ts → ∀ t ∈ ts, ((s.cthread_pool_start p).Waits t ↔ s.Waits t) := by
    intro p' ts hts t ht
    rw [Waits, Waits, htables.cthread_pool_start_cthreads hts ht]
  constructor
  · intro p' ts hts hrun
    by_cases hne : p' = p
    · subst hne
      rw [hself] at hts ⊢
      obtain rfl := Option.some.inj hts
      refine (List.countP_eq_zero.mpr fun t ht => ?_).symm
      have hnot : ¬ (s.cthread_pool_start p').Waits t := by
        rw [Waits, cthread_pool_start_cthreads, if_pos (List.mem_range'_1.mp ht)]
        rintro ⟨-, hplace | hplace⟩ <;> cases hplace
      simpa using hnot
    · rw [cthread_pool_start_pools_of_ne hne] at hts hrun ⊢
      rw [h.count p' ts hts hrun]
      refine List.countP_congr fun t ht => ?_
      simp only [decide_eq_true_eq]
      exact (hwaits hts t ht).symm
  · intro p' ts hts hrun t ht
    by_cases hne : p' = p
    · subst hne
      rw [hself] at ht
      cases ht
    · rw [cthread_pool_start_pools_of_ne hne] at hts hrun ht
      obtain ⟨hmem, hw⟩ := h.cthread p' ts hts hrun t ht
      exact ⟨hmem, (hwaits hts t hmem).mpr hw⟩

theorem inHand_cthread_pool_start (h : s.Tables) : (s.cthread_pool_start p).inHand = s.inHand := by
  funext t
  rw [inHand, inHand, cthread_pool_start_cthreads]
  split
  · next hin =>
    have hgone : (s.cthreads t).place = .gone := by
      by_contra hlive
      obtain ⟨ts, hts, ht⟩ := h.live t hlive
      exact Nat.not_le.mpr (h.pool _ ts hts t ht).2 hin.1
    rw [hgone, if_neg (by simp), if_neg (by simp)]
  · rfl

theorem started_cthread_pool_start (h : s.Tables) (hidle : s.Idle) (hnone : (s.pools p).ctbl = none)
    (hqueue : (s.pools p).call_queue = []) : Started s (s.cthread_pool_start p) [p] := by
  obtain ⟨free_queue, hself⟩ := cthread_pool_start_pools_self (s := s) (p := p)
  refine ⟨h.cthread_pool_start hnone, hidle.cthread_pool_start h, inHand_cthread_pool_start h, ⟨rfl, rfl, rfl, rfl, rfl, rfl⟩,
    fun p' => ?_, fun p' hp' => cthread_pool_start_pools_of_ne (by simpa using hp'), fun p' hp' => ?_, rfl, rfl, rfl⟩
  · by_cases hne : p' = p
    · subst hne
      rw [hself, hqueue]
    · rw [cthread_pool_start_pools_of_ne hne]
  · obtain rfl : p' = p := by simpa using hp'
    rw [hself]
    exact ⟨rfl, _, rfl, List.length_range'⟩

theorem Started.append {s₁ s₂ s₃ : Cthreads} {ps qs : List PoolHandle} (h : Started s₁ s₂ ps) (h' : Started s₂ s₃ qs)
    (hdisjoint : ∀ p ∈ ps, p ∉ qs) : Started s₁ s₃ (ps ++ qs) where
  tables := h'.tables
  idle := h'.idle
  inHand := h'.inHand.trans h.inHand
  history := ⟨h'.history.1.trans h.history.1, h'.history.2.trans h.history.2, h'.history.3.trans h.history.3,
    h'.history.4.trans h.history.4, h'.history.5.trans h.history.5, h'.history.6.trans h.history.6⟩
  queue p := (h'.queue p).trans (h.queue p)
  others p hp := (h'.others p fun hq => hp (List.mem_append_right _ hq)).trans
    (h.others p fun hq => hp (List.mem_append_left _ hq))
  running p hp := by
    by_cases hps : p ∈ ps
    · rw [h'.others p (hdisjoint p hps)]
      exact h.running p hps
    · rw [← h.others p hps]
      exact h'.running p ((List.mem_append.mp hp).resolve_left hps)
  pvt := h'.pvt.trans h.pvt
  reserved_pools := h'.reserved_pools.trans h.reserved_pools
  stopping := h'.stopping.trans h.stopping

theorem started_foldl {ps : List PoolHandle} (hnodup : ps.Nodup) : ∀ {s : Cthreads}, s.Tables → s.Idle →
    (∀ p ∈ ps, (s.pools p).ctbl = none ∧ (s.pools p).call_queue = []) →
    Started s (ps.foldl (fun s p => s.cthread_pool_start p) s) ps := by
  induction ps with
  | nil =>
    intro s h hidle _
    exact ⟨h, hidle, rfl, ⟨rfl, rfl, rfl, rfl, rfl, rfl⟩, fun _ => rfl, fun _ _ => rfl, fun _ hp => (by cases hp), rfl, rfl, rfl⟩
  | cons p ps ih =>
    intro s h hidle hnone
    obtain ⟨hp, hps⟩ := List.nodup_cons.mp hnodup
    have hone := started_cthread_pool_start h hidle (hnone p List.mem_cons_self).1 (hnone p List.mem_cons_self).2
    have hrest := ih hps hone.tables hone.idle fun q hq => by
      have hne : q ∉ [p] := by
        rw [List.mem_singleton]
        rintro rfl
        exact hp hq
      rw [hone.others q hne]
      exact hnone q (List.mem_cons_of_mem p hq)
    refine hone.append hrest ?_
    rintro q hq
    obtain rfl : q = p := by simpa using hq
    exact hp

theorem Inv.rpc__cthread_start_all (h : s.Inv) {n : ℕ} (hn : n % 2 ^ 16 ≠ 0) (henabled : s.cthread_invoke_enabled = false)
    (hstopping : s.stopping = none) : (s.rpc__cthread_start_all n).Inv := by
  set s₀ := s.setPool .default { s.pools .default with
    n_threads := n % 2 ^ 16
    max_queued := if s.cthread_default_call_queue_size ≠ 0 then s.cthread_default_call_queue_size
      else RPC_C_CTHREAD_QUEUE_MULTIPLIER * n % 2 ^ 32 } with hs₀
  have hsame : SameThreads s s₀ := by
    refine ⟨?_, ?_, ?_, ?_, rfl, rfl, rfl, rfl, rfl⟩ <;> intro p <;> rw [hs₀, setPool_pools] <;> split <;>
      first | rfl | (next heq => rw [heq])
  have hqueues₀ : ∀ p, (s₀.pools p).call_queue = (s.pools p).call_queue := by
    intro p
    rw [hs₀, setPool_pools]
    split
    · next heq => rw [heq]
    · rfl
  have hoff := h.control.off henabled hstopping
  have hdefault : (s.pools .default).call_queue = [] := by
    by_contra hne
    obtain ⟨ts, hts, -⟩ := h.queues.busy hne
    rw [hoff .default (.inl rfl)] at hts
    cases hts
  have hempty : ∀ p, (s.pools p).call_queue = [] := by
    intro p
    cases p with
    | default => exact hdefault
    | reserved i => rw [h.queues.reserved i, hdefault, List.filter_nil]
  set ps := PoolHandle.default :: s.cthread_reserved_pools.map .reserved with hps
  have hlisted : ∀ p, s.Listed p ↔ p ∈ ps := by
    intro p
    rw [hps, Listed, List.mem_cons, List.mem_map]
    refine or_congr Iff.rfl (exists_congr fun i => and_congr Iff.rfl eq_comm)
  have hnodup : ps.Nodup := by
    rw [hps, List.nodup_cons]
    refine ⟨by simp, h.control.nodup.map fun i j hij => PoolHandle.reserved.inj hij⟩
  have hstarted := started_foldl hnodup (hsame.tables h.tables) (hsame.idle h.idle) fun p hp =>
    ⟨(hsame.ctbl p).trans (hoff p ((hlisted p).mpr hp)), (hqueues₀ p).trans (hempty p)⟩
  have heq : s.rpc__cthread_start_all n =
      { ps.foldl (fun s p => s.cthread_pool_start p) s₀ with cthread_invoke_enabled := true } := by
    rw [hps, List.foldl_cons, List.foldl_map]
    rfl
  rw [heq]
  set s₁ := ps.foldl (fun s p => s.cthread_pool_start p) s₀
  have hqueues₁ : ∀ p, (s₁.pools p).call_queue = (s.pools p).call_queue := fun p => (hstarted.queue p).trans (hqueues₀ p)
  refine ⟨hstarted.tables.congr (fun _ => rfl) (fun _ => rfl) rfl rfl, ⟨hstarted.idle.count, hstarted.idle.cthread⟩, ?_, ?_, ?_,
    hstarted.history.astray.trans h.astray⟩
  · constructor
    · intro _
      refine ⟨hstarted.stopping.trans hstopping, fun p hp => ?_⟩
      have hp' : s.Listed p := by
        rw [Listed] at hp ⊢
        rwa [show ({ s₁ with cthread_invoke_enabled := true } : Cthreads).cthread_reserved_pools = s.cthread_reserved_pools from
          hstarted.reserved_pools] at hp
      obtain ⟨hrun, ts, hts, -⟩ := hstarted.running p ((hlisted p).mp hp')
      exact ⟨hrun, ts, hts⟩
    · intro hfalse
      cases hfalse
    · intro i hi
      have hnone : s₁.stopping = none := hstarted.stopping.trans hstopping
      rw [show ({ s₁ with cthread_invoke_enabled := true } : Cthreads).stopping = s₁.stopping from rfl, hnone] at hi
      cases hi
    · rw [show ({ s₁ with cthread_invoke_enabled := true } : Cthreads).cthread_reserved_pools = s.cthread_reserved_pools from
        hstarted.reserved_pools]
      exact h.control.nodup
    · intro ts hts
      obtain ⟨-, ts', hts', hlength⟩ := hstarted.running .default (by rw [hps]; exact List.mem_cons_self)
      obtain rfl : ts' = ts := Option.some.inj (hts'.symm.trans hts)
      rintro rfl
      rw [hs₀, setPool_pools, if_pos rfl] at hlength
      exact hn hlength.symm
  · constructor
    · intro call
      have hbefore := h.queues.is_queued call
      rw [← hqueues₁] at hbefore
      rw [show ({ s₁ with cthread_invoke_enabled := true } : Cthreads).pvt = s.pvt from hstarted.pvt]
      exact hbefore
    · intro i
      change (s₁.pools (.reserved i)).call_queue = (s₁.pools .default).call_queue.filter _
      rw [hqueues₁, hqueues₁, hempty, hempty, List.filter_nil]
    · intro hne
      exact absurd ((hqueues₁ .default).trans hdefault) hne
  · have hdesk : ({ s₁ with cthread_invoke_enabled := true } : Cthreads).desk = s.desk :=
      desk_eq hstarted.history.accepted (hstarted.inHand.trans hsame.inHand) (hqueues₁ .default) hstarted.pvt
        hstarted.history.started hstarted.history.served hstarted.history.logged hstarted.history.dequeued
    rw [hdesk]
    exact h.kept

/-- Every thread of the pool has executed what it was assigned. -/
def NoneInHand (s : Cthreads) (p : PoolHandle) : Prop := ∀ t ∈ (s.pools p).ctbl.getD [], s.inHand t = none

instance (s : Cthreads) (p : PoolHandle) : Decidable (s.NoneInHand p) := inferInstanceAs (Decidable (∀ t ∈ _, _))

/-- Pools of a list have been told to stop, and nothing else has happened. -/
structure Stopped (s s' : Cthreads) (ps : List PoolHandle) : Prop where
  tables : s'.Tables
  idle : s'.Idle
  inHand : s'.inHand = s.inHand
  history : SameHistory s s'
  queue : ∀ p, (s'.pools p).call_queue = (s.pools p).call_queue
  ctbl : ∀ p, (s'.pools p).ctbl = (s.pools p).ctbl
  stop : ∀ p, p ∉ ps → (s'.pools p).stop = (s.pools p).stop
  busy : ∀ t, s'.Busy t ↔ s.Busy t
  pvt : s'.pvt = s.pvt
  reserved_pools : s'.cthread_reserved_pools = s.cthread_reserved_pools
  stopping : s'.stopping = s.stopping
  enabled : s'.cthread_invoke_enabled = s.cthread_invoke_enabled

theorem Stopped.append {s₁ s₂ s₃ : Cthreads} {ps qs : List PoolHandle} (h : Stopped s₁ s₂ ps) (h' : Stopped s₂ s₃ qs) :
    Stopped s₁ s₃ (ps ++ qs) where
  tables := h'.tables
  idle := h'.idle
  inHand := h'.inHand.trans h.inHand
  history := ⟨h'.history.1.trans h.history.1, h'.history.2.trans h.history.2, h'.history.3.trans h.history.3,
    h'.history.4.trans h.history.4, h'.history.5.trans h.history.5, h'.history.6.trans h.history.6⟩
  queue p := (h'.queue p).trans (h.queue p)
  ctbl p := (h'.ctbl p).trans (h.ctbl p)
  stop p hp := (h'.stop p fun hq => hp (List.mem_append_right _ hq)).trans (h.stop p fun hq => hp (List.mem_append_left _ hq))
  busy t := (h'.busy t).trans (h.busy t)
  pvt := h'.pvt.trans h.pvt
  reserved_pools := h'.reserved_pools.trans h.reserved_pools
  stopping := h'.stopping.trans h.stopping
  enabled := h'.enabled.trans h.enabled

theorem cthread_pool_stop_none (hnone : (s.pools p).ctbl = none) : s.cthread_pool_stop p = s := by
  rw [cthread_pool_stop, hnone]

theorem cthread_pool_stop_reserved_pools (p : PoolHandle) :
    (s.cthread_pool_stop p).cthread_reserved_pools = s.cthread_reserved_pools := by
  rw [cthread_pool_stop]
  split <;> rfl

section Stop

variable {ts : List Cthread} (hts : (s.pools p).ctbl = some ts)
include hts

theorem cthread_pool_stop_pools (p' : PoolHandle) : (s.cthread_pool_stop p).pools p' =
    if p' = p then { s.pools p with stop := true } else s.pools p' := by
  rw [cthread_pool_stop, hts]
  exact setPool_pools ..

theorem cthread_pool_stop_cthreads (h : s.Tables) (t : Cthread) : (s.cthread_pool_stop p).cthreads t =
    if t ∈ ts ∧ (s.cthreads t).place = .waiting then { s.cthreads t with place := .woken } else s.cthreads t := by
  have hstate : (s.cthreads t).place = .waiting → (s.cthreads t).thread_state ≠ RPC_C_NO_CTHREAD := by
    intro hwaiting
    have hfits := h.fits t
    rw [cthread_elt_t.Fits, hwaiting] at hfits
    rw [hfits.1]
    decide
  rw [cthread_pool_stop, hts]
  refine if_congr ?_ rfl rfl
  exact ⟨fun hin => ⟨hin.1, hin.2.2⟩, fun hin => ⟨hin.1, hstate hin.2, hin.2⟩⟩

theorem cthread_pool_stop_waits (h : s.Tables) (t : Cthread) : (s.cthread_pool_stop p).Waits t ↔ s.Waits t := by
  rw [Waits, Waits, cthread_pool_stop_cthreads hts h]
  split
  · next hin => exact and_congr Iff.rfl ⟨fun _ => .inl hin.2, fun _ => .inr rfl⟩
  · rfl

theorem cthread_pool_stop_gone (h : s.Tables) (t : Cthread) :
    ((s.cthread_pool_stop p).cthreads t).place = .gone ↔ (s.cthreads t).place = .gone := by
  rw [cthread_pool_stop_cthreads hts h]
  split
  · next hin => rw [hin.2]; simp
  · rfl

theorem cthread_pool_stop_pool (h : s.Tables) (t : Cthread) : ((s.cthread_pool_stop p).cthreads t).pool = (s.cthreads t).pool := by
  rw [cthread_pool_stop_cthreads hts h]
  split <;> rfl

theorem cthread_pool_stop_ctbl (p' : PoolHandle) : ((s.cthread_pool_stop p).pools p').ctbl = (s.pools p').ctbl := by
  rw [cthread_pool_stop_pools hts]
  split
  · next heq => rw [heq]
  · rfl

theorem cthread_pool_stop_tables (h : s.Tables) (hhand : s.NoneInHand p) : (s.cthread_pool_stop p).Tables := by
  constructor
  · intro p' ts'
    rw [cthread_pool_stop_ctbl hts]
    exact h.nodup p' ts'
  · intro p' ts' hts' t ht
    rw [cthread_pool_stop_ctbl hts] at hts'
    rw [cthread_pool_stop_pool hts h]
    refine ⟨(h.pool p' ts' hts' t ht).1, ?_⟩
    rw [cthread_pool_stop, hts]
    exact (h.pool p' ts' hts' t ht).2
  · intro t hlive
    rw [cthread_pool_stop_pool hts h, cthread_pool_stop_ctbl hts]
    exact h.live t fun hgone => hlive ((cthread_pool_stop_gone hts h t).mpr hgone)
  · intro p' ts' hts' hrun t ht hgone
    rw [cthread_pool_stop_ctbl hts] at hts'
    have hrun' : (s.pools p').stop = false := by
      rw [cthread_pool_stop_pools hts] at hrun
      split at hrun
      · cases hrun
      · exact hrun
    exact h.stays p' ts' hts' hrun' t ht ((cthread_pool_stop_gone hts h t).mp hgone)
  · intro t
    have hfits := h.fits t
    rw [cthread_pool_stop_pool hts h, cthread_pool_stop_pools hts, cthread_pool_stop_cthreads hts h]
    by_cases hp : (s.cthreads t).pool = p
    · rw [if_pos hp]
      cases hplace : (s.cthreads t).place with
      | waiting =>
        have ht : t ∈ ts := h.mem (by rw [hplace]; simp) (by rw [hp]; exact hts)
        rw [cthread_elt_t.Fits, hplace] at hfits
        rw [if_pos ⟨ht, rfl⟩]
        exact .inl hfits.1
      | woken =>
        have ht : t ∈ ts := h.mem (by rw [hplace]; simp) (by rw [hp]; exact hts)
        rw [if_neg (by simp), cthread_elt_t.Fits, hplace]
        rw [cthread_elt_t.Fits, hplace] at hfits
        obtain hidle | ⟨hactive, -, call, hcall⟩ := hfits
        · exact .inl hidle
        · -- A thread with a call in hand would exit without it.
          have hnone := hhand t (by rw [hts]; exact ht)
          rw [inHand, if_pos ⟨hactive, .inr (.inr hplace)⟩, hcall] at hnone
          cases hnone
      | created | executing | gone =>
        rw [if_neg (by simp), cthread_elt_t.Fits, hplace]
        rw [cthread_elt_t.Fits, hplace] at hfits
        exact hfits
    · have hnot : t ∉ ts := h.not_mem hts hp
      rw [if_neg hp, if_neg fun hin => hnot hin.1]
      exact hfits

theorem cthread_pool_stop_idle (h : s.Tables) (hidle : s.Idle) : (s.cthread_pool_stop p).Idle := by
  have hrunning : ∀ p', ((s.cthread_pool_stop p).pools p').stop = false → (s.cthread_pool_stop p).pools p' = s.pools p' ∧
      (s.pools p').stop = false := by
    intro p' hrun
    rw [cthread_pool_stop_pools hts] at hrun ⊢
    split at hrun
    · cases hrun
    · next hne => exact ⟨if_neg hne, hrun⟩
  constructor
  · intro p' ts' hts' hrun
    obtain ⟨hsame, hrun'⟩ := hrunning p' hrun
    rw [hsame] at hts' ⊢
    rw [hidle.count p' ts' hts' hrun']
    refine List.countP_congr fun t _ => ?_
    simp only [decide_eq_true_eq]
    exact (cthread_pool_stop_waits hts h t).symm
  · intro p' ts' hts' hrun t ht
    obtain ⟨hsame, hrun'⟩ := hrunning p' hrun
    rw [hsame] at hts' ht
    obtain ⟨hmem, hw⟩ := hidle.cthread p' ts' hts' hrun' t ht
    exact ⟨hmem, (cthread_pool_stop_waits hts h t).mpr hw⟩

theorem inHand_cthread_pool_stop (h : s.Tables) : (s.cthread_pool_stop p).inHand = s.inHand := by
  funext t
  rw [inHand, inHand, cthread_pool_stop_cthreads hts h]
  split
  · next hin =>
    refine if_congr ?_ rfl rfl
    rw [hin.2]
    simp
  · rfl

end Stop

theorem stopped_cthread_pool_stop (h : s.Tables) (hidle : s.Idle) (hhand : s.NoneInHand p) :
    Stopped s (s.cthread_pool_stop p) [p] := by
  cases hts : (s.pools p).ctbl with
  | none =>
    rw [cthread_pool_stop_none hts]
    exact ⟨h, hidle, rfl, ⟨rfl, rfl, rfl, rfl, rfl, rfl⟩, fun _ => rfl, fun _ => rfl, fun _ _ => rfl, fun _ => Iff.rfl, rfl, rfl,
      rfl, rfl⟩
  | some ts =>
    have hfields : (s.cthread_pool_stop p).pvt = s.pvt ∧
        (s.cthread_pool_stop p).cthread_reserved_pools = s.cthread_reserved_pools ∧
        (s.cthread_pool_stop p).stopping = s.stopping ∧
        (s.cthread_pool_stop p).cthread_invoke_enabled = s.cthread_invoke_enabled ∧ SameHistory s (s.cthread_pool_stop p) := by
      rw [cthread_pool_stop, hts]
      exact ⟨rfl, rfl, rfl, rfl, ⟨rfl, rfl, rfl, rfl, rfl, rfl⟩⟩
    obtain ⟨hpvt, hreserved, hstopping, henabled, hhistory⟩ := hfields
    refine ⟨cthread_pool_stop_tables hts h hhand, cthread_pool_stop_idle hts h hidle, inHand_cthread_pool_stop hts h, hhistory,
      fun p' => ?_, cthread_pool_stop_ctbl hts, fun p' hp' => ?_, fun t => ?_, hpvt, hreserved, hstopping, henabled⟩
    · rw [cthread_pool_stop_pools hts]
      split
      · next heq => rw [heq]
      · rfl
    · rw [cthread_pool_stop_pools hts, if_neg (by simpa using hp')]
    · rw [Busy, Busy, cthread_pool_stop_waits hts h, ne_eq, cthread_pool_stop_gone hts h]

theorem stopped_foldl (ps : List PoolHandle) : ∀ {s : Cthreads}, s.Tables → s.Idle → (∀ p ∈ ps, s.NoneInHand p) →
    Stopped s (ps.foldl (fun s p => s.cthread_pool_stop p) s) ps := by
  induction ps with
  | nil =>
    intro s h hidle _
    exact ⟨h, hidle, rfl, ⟨rfl, rfl, rfl, rfl, rfl, rfl⟩, fun _ => rfl, fun _ => rfl, fun _ _ => rfl, fun _ => Iff.rfl, rfl, rfl,
      rfl, rfl⟩
  | cons p ps ih =>
    intro s h hidle hhand
    have hone := stopped_cthread_pool_stop h hidle (hhand p List.mem_cons_self)
    refine hone.append (ih hone.tables hone.idle fun q hq => ?_)
    rw [NoneInHand, hone.ctbl, hone.inHand]
    exact hhand q (List.mem_cons_of_mem p hq)

theorem Stopped.queues {ps : List PoolHandle} (h : Stopped s s' ps) (hqueues : s.Queues) : s'.Queues :=
  hqueues.congr h.queue h.pvt (h.ctbl _) fun _ _ _ t _ hb => (h.busy t).mpr hb

theorem Stopped.desk {ps : List PoolHandle} (h : Stopped s s' ps) : s'.desk = s.desk :=
  desk_eq h.history.accepted h.inHand (h.queue _) h.pvt h.history.started h.history.served h.history.logged h.history.dequeued

theorem Inv.rpc__cthread_stop_all (h : s.Inv) (hhand : ∀ p, s.Listed p → s.NoneInHand p) : s.rpc__cthread_stop_all.Inv := by
  set ps := PoolHandle.default :: s.cthread_reserved_pools.map .reserved with hps
  set s₀ : Cthreads := { s with cthread_invoke_enabled := false } with hs₀
  have htables₀ : s₀.Tables := h.tables.congr (fun _ => rfl) (fun _ => rfl) rfl rfl
  have hidle₀ : s₀.Idle := ⟨h.idle.count, h.idle.cthread⟩
  have hstopped := stopped_foldl ps htables₀ hidle₀ fun p hp => by
    refine hhand p ?_
    rw [hps, List.mem_cons, List.mem_map] at hp
    obtain rfl | ⟨i, hi, rfl⟩ := hp
    · exact .inl rfl
    · exact .inr ⟨i, hi, rfl⟩
  have heq : s.rpc__cthread_stop_all = { ps.foldl (fun s p => s.cthread_pool_stop p) s₀ with stopping := some .default } := by
    rw [hps, List.foldl_cons, List.foldl_map, ← cthread_pool_stop_reserved_pools (s := s₀) .default]
    rfl
  rw [heq]
  set s₁ := ps.foldl (fun s p => s.cthread_pool_stop p) s₀
  refine ⟨hstopped.tables.congr (fun _ => rfl) (fun _ => rfl) rfl rfl, ⟨hstopped.idle.count, hstopped.idle.cthread⟩, ?_,
    (hstopped.queues (h.queues.congr (fun _ => rfl) rfl rfl fun _ _ _ _ _ hb => hb)).congr (fun _ => rfl) rfl rfl
      fun _ _ _ _ _ hb => hb, ?_, hstopped.history.astray.trans h.astray⟩
  · have henabled : ({ s₁ with stopping := some .default } : Cthreads).cthread_invoke_enabled = false := hstopped.enabled
    constructor
    · intro htrue
      exact Bool.noConfusion (henabled.symm.trans htrue)
    · intro _ hnone
      cases hnone
    · intro i hi
      cases hi
    · rw [show ({ s₁ with stopping := some .default } : Cthreads).cthread_reserved_pools = s.cthread_reserved_pools from
        hstopped.reserved_pools]
      exact h.control.nodup
    · intro ts hts
      rw [show (({ s₁ with stopping := some .default } : Cthreads).pools .default).ctbl = (s.pools .default).ctbl from
        hstopped.ctbl .default] at hts
      exact h.control.threads ts hts
  · have hdesk : ({ s₁ with stopping := some .default } : Cthreads).desk = s.desk := hstopped.desk
    rw [hdesk]
    exact h.kept

theorem Inv.rpc_server_free_thread_pool (h : s.Inv) {i : ℕ} (hhand : s.NoneInHand (.reserved i))
    (hstopping : s.stopping ≠ some (.reserved i)) : (s.rpc_server_free_thread_pool i).Inv := by
  have hstopped := stopped_cthread_pool_stop h.tables h.idle hhand
  rw [Cthreads.rpc_server_free_thread_pool]
  set s₁ := s.cthread_pool_stop (.reserved i)
  set s₂ : Cthreads := { s₁ with
    cthread_reserved_pools := s.cthread_reserved_pools.filter (· ≠ i)
    astray := s.stopping = some (.reserved i) } with hs₂
  have hlisted : ∀ p, s₂.Listed p → s.Listed p ∧ p ≠ .reserved i := by
    rintro p (rfl | ⟨j, hj, rfl⟩)
    · exact ⟨.inl rfl, by simp⟩
    · obtain ⟨hj, hne⟩ := List.mem_filter.mp hj
      exact ⟨.inr ⟨j, hj, rfl⟩, fun heq => by simp [PoolHandle.reserved.inj heq] at hne⟩
  have hctbl : ∀ p, (s₂.pools p).ctbl = (s.pools p).ctbl := hstopped.ctbl
  have hstopping₂ : s₂.stopping = s.stopping := hstopped.stopping
  have henabled₂ : s₂.cthread_invoke_enabled = s.cthread_invoke_enabled := hstopped.enabled
  refine ⟨hstopped.tables.congr (fun _ => rfl) (fun _ => rfl) rfl rfl, ⟨hstopped.idle.count, hstopped.idle.cthread⟩, ?_,
    (hstopped.queues h.queues).congr (fun _ => rfl) rfl rfl fun _ _ _ _ _ hb => hb, ?_, decide_eq_false hstopping⟩
  · constructor
    · rw [henabled₂, hstopping₂]
      intro henabled
      obtain ⟨hnone, hruns⟩ := h.control.enabled henabled
      refine ⟨hnone, fun p hp => ?_⟩
      obtain ⟨hp, hne⟩ := hlisted p hp
      rw [hctbl]
      obtain ⟨hrun, hts⟩ := hruns p hp
      exact ⟨(hstopped.stop p (by simpa using hne)).trans hrun, hts⟩
    · rw [henabled₂, hstopping₂]
      intro henabled hnone p hp
      rw [hctbl]
      exact h.control.off henabled hnone p (hlisted p hp).1
    · rw [hstopping₂]
      intro j hj
      obtain ⟨hdefault, before, after, hsplit, hbefore⟩ := h.control.rest j hj
      have hne : j ≠ i := by
        rintro rfl
        exact hstopping hj
      rw [hctbl]
      refine ⟨hdefault, before.filter (· ≠ i), after.filter (· ≠ i), ?_, fun k hk => ?_⟩
      · change s.cthread_reserved_pools.filter (· ≠ i) = _
        rw [hsplit, List.filter_append, List.filter_cons_of_pos (by simpa using hne)]
      · rw [hctbl]
        exact hbefore k (List.mem_filter.mp hk).1
    · exact h.control.nodup.filter _
    · intro ts hts
      rw [hctbl] at hts
      exact h.control.threads ts hts
  · have hdesk : s₂.desk = s.desk := hstopped.desk
    rw [hdesk]
    exact h.kept

theorem nextPool_append {i : ℕ} {before after : List ℕ} (hnot : i ∉ before) :
    nextPool i (before ++ i :: after) = after.head? := by
  induction before with
  | nil => rw [List.nil_append, nextPool, if_pos rfl]
  | cons j before ih =>
    rw [List.cons_append, nextPool, if_neg (by rintro rfl; exact hnot List.mem_cons_self)]
    exact ih fun hi => hnot (List.mem_cons_of_mem j hi)

theorem Tables.gone_of_exited (h : s.Tables) (hexited : s.exited p = true) (hpool : (s.cthreads t).pool = p) :
    (s.cthreads t).place = .gone := by
  by_contra hlive
  obtain ⟨ts, hts, ht⟩ := h.live t hlive
  rw [hpool] at hts
  rw [exited, hts, Option.getD_some, List.all_eq_true] at hexited
  have hstate : (s.cthreads t).thread_state = RPC_C_NO_CTHREAD := by simpa using hexited t ht
  have hfits := h.fits t
  rw [cthread_elt_t.Fits, hstate] at hfits
  cases hplace : (s.cthreads t).place <;> rw [hplace] at hfits hlive <;> simp at hfits hlive

theorem poolStopped_pools (p' : PoolHandle) : (s.poolStopped p).pools p' =
    if p' = p then { s.pools p with ctbl := none, free_queue := 0 } else s.pools p' := setPool_pools ..

theorem Control.poolStopped (h : s.Control) (hstopping : s.stopping = some p) : (s.poolStopped p).Control := by
  have hctbl : ∀ p', ((s.poolStopped p).pools p').ctbl = if p' = p then none else (s.pools p').ctbl := by
    intro p'
    rw [poolStopped_pools]
    split <;> rfl
  have hkept : ∀ {p'}, (s.pools p').ctbl = none → ((s.poolStopped p).pools p').ctbl = none := by
    intro p' hnone
    rw [hctbl]
    split
    · rfl
    · exact hnone
  have hself : ((s.poolStopped p).pools p).ctbl = none := by rw [hctbl, if_pos rfl]
  -- The list of reserved pools divides into those that have been waited for and the rest, the first of which is next.
  have hsplit : ∃ before after, s.cthread_reserved_pools = before ++ after ∧ ((s.poolStopped p).pools .default).ctbl = none ∧
      (∀ j ∈ before, ((s.poolStopped p).pools (.reserved j)).ctbl = none) ∧
      (s.poolStopped p).stopping = after.head?.map .reserved := by
    cases p with
    | default => exact ⟨[], s.cthread_reserved_pools, rfl, hself, fun j hj => (by cases hj), rfl⟩
    | reserved i =>
      obtain ⟨hdefault, before, after, hsplit, hbefore⟩ := h.rest i hstopping
      have hnodup := h.nodup
      rw [hsplit] at hnodup
      have hnot : i ∉ before := fun hi => (List.nodup_cons.mp (List.nodup_middle.mp hnodup)).1 (List.mem_append_left _ hi)
      refine ⟨before ++ [i], after, by rw [hsplit, List.append_assoc, List.singleton_append], hkept hdefault, fun j hj => ?_, ?_⟩
      · obtain hj | hj := List.mem_append.mp hj
        · exact hkept (hbefore j hj)
        · rw [List.mem_singleton.mp hj]
          exact hself
      · change (nextPool i s.cthread_reserved_pools).map PoolHandle.reserved = _
        rw [hsplit, nextPool_append hnot]
  obtain ⟨before, after, hsplit, hdefault, hbefore, hnext⟩ := hsplit
  constructor
  · intro henabled
    rw [(h.enabled henabled).1] at hstopping
    cases hstopping
  · rintro - hnone p' (rfl | ⟨j, hj, rfl⟩)
    · exact hdefault
    · rw [hnext] at hnone
      cases after with
      | nil =>
        rw [List.append_nil] at hsplit
        exact hbefore j (hsplit ▸ hj)
      | cons k after => cases hnone
  · intro i hi
    rw [hnext] at hi
    cases after with
    | nil => cases hi
    | cons j after =>
      obtain rfl : j = i := PoolHandle.reserved.inj (Option.some.inj hi)
      exact ⟨hdefault, before, after, hsplit, hbefore⟩
  · exact h.nodup
  · intro ts hts
    rw [hdefault] at hts
    cases hts

theorem Inv.poolStopped (h : s.Inv) (hstopping : s.stopping = some p) (hexited : s.exited p = true) : (s.poolStopped p).Inv := by
  have hgone : ∀ t, (s.cthreads t).pool = p → (s.cthreads t).place = .gone := fun t hpool =>
    h.tables.gone_of_exited hexited hpool
  have hctbl : ∀ {p' ts}, ((s.poolStopped p).pools p').ctbl = some ts → p' ≠ p ∧ (s.poolStopped p).pools p' = s.pools p' := by
    intro p' ts hts
    rw [poolStopped_pools] at hts ⊢
    split at hts
    · cases hts
    · next hne => exact ⟨hne, if_neg hne⟩
  have hstop : ∀ p', ((s.poolStopped p).pools p').stop = (s.pools p').stop := by
    intro p'
    rw [poolStopped_pools]
    split
    · next heq => rw [heq]
    · rfl
  have hqueue : ∀ p', ((s.poolStopped p).pools p').call_queue = (s.pools p').call_queue := by
    intro p'
    rw [poolStopped_pools]
    split
    · next heq => rw [heq]
    · rfl
  refine ⟨⟨?_, ?_, ?_, ?_, ?_⟩, ⟨?_, ?_⟩, h.control.poolStopped hstopping, ⟨?_, ?_, ?_⟩, ?_, h.astray⟩
  · intro p' ts hts
    rw [(hctbl hts).2] at hts
    exact h.tables.nodup p' ts hts
  · intro p' ts hts
    rw [(hctbl hts).2] at hts
    exact h.tables.pool p' ts hts
  · intro t hlive
    have hne : (s.cthreads t).pool ≠ p := fun hpool => hlive (hgone t hpool)
    change ∃ ts, ((s.poolStopped p).pools (s.cthreads t).pool).ctbl = some ts ∧ t ∈ ts
    rw [poolStopped_pools, if_neg hne]
    exact h.tables.live t hlive
  · intro p' ts hts hrun
    obtain ⟨-, hsame⟩ := hctbl hts
    rw [hsame] at hts hrun
    exact h.tables.stays p' ts hts hrun
  · intro t
    rw [hstop]
    exact h.tables.fits t
  · intro p' ts hts hrun
    obtain ⟨-, hsame⟩ := hctbl hts
    rw [hsame] at hts hrun ⊢
    exact h.idle.count p' ts hts hrun
  · intro p' ts hts hrun
    obtain ⟨-, hsame⟩ := hctbl hts
    rw [hsame] at hts hrun ⊢
    exact h.idle.cthread p' ts hts hrun
  · intro call
    rw [hqueue]
    exact h.queues.is_queued call
  · intro i
    rw [hqueue, hqueue]
    exact h.queues.reserved i
  · intro hne
    rw [hqueue] at hne
    obtain ⟨ts, hts, t, ht, hb⟩ := h.queues.busy hne
    have hpool : PoolHandle.default ≠ p := by
      rintro rfl
      exact hb.1 (hgone t (h.tables.pool _ ts hts t ht).1)
    rw [poolStopped_pools, if_neg hpool]
    exact ⟨ts, hts, t, ht, hb⟩
  · have hdesk : (s.poolStopped p).desk = s.desk := desk_eq rfl rfl (hqueue _) rfl rfl rfl rfl rfl
    rw [hdesk]
    exact h.kept

end Cthreads

end dce.rpc
