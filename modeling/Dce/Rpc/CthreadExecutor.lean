import Dce.Rpc.CthreadTables

open lib

namespace dce.rpc

open thread_state_t

namespace Cthreads

variable {s : Cthreads} {t : Cthread}

variable {ts : List Cthread} (cthread : cthread_elt_t) (call : Call) {t' : Cthread}

theorem waits_setCthread_of_ne (hne : t' ≠ t) :
    (s.setCthread t cthread).Waits t' ↔ s.Waits t' := by
  rw [Waits, Waits, setCthread_cthreads, if_neg hne]

theorem waits_setCthread_self : (s.setCthread t cthread).Waits t ↔
    cthread.thread_state = RPC_C_IDLE_CTHREAD ∧ (cthread.place = .waiting ∨ cthread.place = .woken) := by
  rw [Waits, setCthread_cthreads, if_pos rfl]

theorem Tables.not_mem (h : s.Tables) {p : PoolHandle} (hts : (s.pools p).ctbl = some ts)
    (hne : (s.cthreads t).pool ≠ p) : t ∉ ts := fun ht => hne (h.pool p ts hts t ht).1

theorem Tables.mem (h : s.Tables) (hlive : (s.cthreads t).place ≠ .gone)
    (hts : (s.pools (s.cthreads t).pool).ctbl = some ts) : t ∈ ts := by
  obtain ⟨ts', hts', ht⟩ := h.live t hlive
  rw [hts] at hts'
  obtain rfl := Option.some.inj hts'
  exact ht

theorem countP_eq_of_not_mem {P Q : Cthread → Prop} [DecidablePred P] [DecidablePred Q]
    (ht : t ∉ ts) (hother : ∀ t', t' ≠ t → (Q t' ↔ P t')) : ts.countP (Q ·) = ts.countP (P ·) := by
  refine List.countP_congr fun t' ht' => ?_
  simp only [decide_eq_true_eq]
  exact hother t' (by rintro rfl; exact ht ht')

theorem countP_succ {P Q : Cthread → Prop} [DecidablePred P] [DecidablePred Q] (hnodup : ts.Nodup)
    (ht : t ∈ ts) (hP : ¬ P t) (hQ : Q t) (hother : ∀ t', t' ≠ t → (Q t' ↔ P t')) :
    ts.countP (Q ·) = ts.countP (P ·) + 1 := by
  obtain ⟨before, after, rfl⟩ := List.append_of_mem ht
  have hnot : t ∉ before ∧ t ∉ after := by
    have h := List.nodup_middle.mp hnodup
    have h' := (List.nodup_cons.mp h).1
    exact ⟨fun hb => h' (List.mem_append_left _ hb), fun ha => h' (List.mem_append_right _ ha)⟩
  rw [List.countP_append, List.countP_append, List.countP_cons_of_pos (by simpa using hQ),
    List.countP_cons_of_neg (by simpa using hP), countP_eq_of_not_mem hnot.1 hother, countP_eq_of_not_mem hnot.2 hother]
  omega

theorem idle_thread_pools (p : PoolHandle) : (s.CTHREAD_POOL_IDLE_THREAD t).pools p =
    if p = (s.cthreads t).pool then
      { s.pools p with n_idle := (s.pools p).n_idle + 1, idle_cthread := some t }
    else s.pools p := by
  rw [CTHREAD_POOL_IDLE_THREAD, setPool_pools]
  split
  · next heq => rw [heq]
  · rfl

/-- An executor that has no call registers as idle and waits, or exits. -/
def parked (s : Cthreads) (t : Cthread) : Cthreads :=
  (s.CTHREAD_POOL_IDLE_THREAD t).setCthread t
    (if (s.pools (s.cthreads t).pool).stop then { s.cthreads t with thread_state := RPC_C_NO_CTHREAD, place := .gone }
    else { s.cthreads t with thread_state := RPC_C_IDLE_CTHREAD, place := .waiting })

theorem proceed_stop (hstop : (s.pools (s.cthreads t).pool).stop = true) :
    s.proceed t = s.setCthread t { s.cthreads t with thread_state := RPC_C_NO_CTHREAD, place := .gone } := by
  rw [proceed, if_pos hstop]

theorem proceed_wait (hrun : (s.pools (s.cthreads t).pool).stop = false)
    (hidle : (s.cthreads t).thread_state = RPC_C_IDLE_CTHREAD) :
    s.proceed t = s.setCthread t { s.cthreads t with place := .waiting } := by
  rw [proceed, if_neg (by rw [hrun]; decide), if_pos hidle]

theorem proceed_execute (hrun : (s.pools (s.cthreads t).pool).stop = false)
    (hactive : (s.cthreads t).thread_state = RPC_C_ACTIVE_CTHREAD) {call : Call} (hcall : (s.cthreads t).call_rep = some call) :
    s.proceed t = s.execute t call := by
  rw [proceed, if_neg (by rw [hrun]; decide), if_neg (by rw [hactive]; decide), hcall]

theorem setCthread_setCthread (cthread cthread' : cthread_elt_t) :
    (s.setCthread t cthread).setCthread t cthread' = s.setCthread t cthread' := by
  simp [setCthread]

theorem proceed_idle_thread (hidle : (s.cthreads t).thread_state = RPC_C_IDLE_CTHREAD) :
    (s.CTHREAD_POOL_IDLE_THREAD t).proceed t = s.parked t := by
  have hstop : ((s.CTHREAD_POOL_IDLE_THREAD t).pools (s.cthreads t).pool).stop = (s.pools (s.cthreads t).pool).stop := by
    rw [idle_thread_pools, if_pos rfl]
  cases hflag : (s.pools (s.cthreads t).pool).stop with
  | true =>
    rw [proceed_stop (hstop.trans hflag), parked, hflag]
    rfl
  | false =>
    rw [proceed_wait (hstop.trans hflag) hidle, parked, hflag, ← hidle]
    rfl

theorem startExecutor_eq (hidle : (s.cthreads t).thread_state = RPC_C_IDLE_CTHREAD)
    (hqueue : (s.pools (s.cthreads t).pool).call_queue = []) : s.startExecutor t = s.parked t := by
  rw [startExecutor, if_pos hqueue, proceed_idle_thread hidle]

theorem finishCall_eq (hqueue : (s.pools (s.cthreads t).pool).call_queue = []) : s.finishCall t = s.parked t := by
  have hcthread : ∀ cthread, (s.setCthread t cthread).cthreads t = cthread := by
    intro cthread
    rw [setCthread_cthreads, if_pos rfl]
  have hparked : (s.setCthread t { s.cthreads t with thread_state := RPC_C_IDLE_CTHREAD }).parked t = s.parked t := by
    simp only [parked, CTHREAD_POOL_IDLE_THREAD, hcthread, setCthread_pools]
    exact setCthread_setCthread (s := s.CTHREAD_POOL_IDLE_THREAD t) _ _
  rw [finishCall, if_pos hqueue, proceed_idle_thread (by rw [hcthread]), hparked]

theorem parked_pool (p : PoolHandle) : (s.parked t).pools p =
    if p = (s.cthreads t).pool then
      { s.pools p with n_idle := (s.pools p).n_idle + 1, idle_cthread := some t }
    else s.pools p := idle_thread_pools p

theorem parked_cthreads (t' : Cthread) : (s.parked t).cthreads t' =
    if t' = t then
      if (s.pools (s.cthreads t).pool).stop then { s.cthreads t with thread_state := RPC_C_NO_CTHREAD, place := .gone }
      else { s.cthreads t with thread_state := RPC_C_IDLE_CTHREAD, place := .waiting }
    else s.cthreads t' := setCthread_cthreads _ t'

theorem parked_tables (h : s.Tables) (hlive : (s.cthreads t).place ≠ .gone) : (s.parked t).Tables := by
  have hidle : (s.CTHREAD_POOL_IDLE_THREAD t).Tables := by
    refine h.congr (fun p => ?_) (fun p => ?_) rfl rfl <;> rw [idle_thread_pools] <;> split <;> rfl
  have hstop : ((s.CTHREAD_POOL_IDLE_THREAD t).pools (s.cthreads t).pool).stop = (s.pools (s.cthreads t).pool).stop := by
    rw [idle_thread_pools, if_pos rfl]
  refine hidle.setCthread ?_ ?_ hlive ?_
  · split <;> rfl
  · change cthread_elt_t.Fits _ ((s.CTHREAD_POOL_IDLE_THREAD t).pools (s.cthreads t).pool).stop
    rw [hstop]
    split
    · rfl
    · next hrun => exact ⟨rfl, by simpa using hrun⟩
  · change _ → ((s.CTHREAD_POOL_IDLE_THREAD t).pools (s.cthreads t).pool).stop = true
    rw [hstop]
    split
    · next hstop => exact fun _ => hstop
    · intro hgone
      cases hgone

theorem parked_waits_of_ne (hne : t' ≠ t) : (s.parked t).Waits t' ↔ s.Waits t' :=
  waits_setCthread_of_ne _ hne

theorem parked_idle (h : s.Idle) (htables : s.Tables) (hlive : (s.cthreads t).place ≠ .gone) (hbusy : ¬ s.Waits t) :
    (s.parked t).Idle := by
  have hself : (s.pools (s.cthreads t).pool).stop = false → (s.parked t).Waits t := by
    intro hrun
    rw [Waits, parked_cthreads, if_pos rfl, hrun]
    exact ⟨rfl, .inl rfl⟩
  constructor
  · intro p ts
    rw [parked_pool]
    split
    · next heq =>
      subst heq
      intro hts hrun
      rw [countP_succ (htables.nodup _ ts hts) (htables.mem hlive hts) hbusy (hself hrun) fun t' hne => parked_waits_of_ne hne,
        ← h.count _ ts hts hrun]
    · next hne =>
      intro hts hrun
      rw [countP_eq_of_not_mem (htables.not_mem hts (Ne.symm hne)) fun t' hne => parked_waits_of_ne hne]
      exact h.count p ts hts hrun
  · intro p ts
    rw [parked_pool]
    split
    · next heq =>
      subst heq
      intro hts hrun t' ht'
      obtain rfl := Option.some.inj ht'
      exact ⟨htables.mem hlive hts, hself hrun⟩
    · next hne =>
      intro hts hrun t' ht'
      obtain ⟨hmem, hwaits⟩ := h.cthread p ts hts hrun t' ht'
      exact ⟨hmem, (parked_waits_of_ne (by rintro rfl; exact htables.not_mem hts (Ne.symm hne) hmem)).mpr hwaits⟩

theorem desk_eq {s' : Cthreads} (haccepted : s'.accepted = s.accepted) (hhand : s'.inHand = s.inHand)
    (hqueue : (s'.pools .default).call_queue = (s.pools .default).call_queue) (hpvt : s'.pvt = s.pvt)
    (hstarted : s'.started = s.started) (hserved : s'.served = s.served) (hlogged : s'.logged = s.logged)
    (hdequeued : s'.dequeued = s.dequeued) : s'.desk = s.desk := by
  simp only [desk, haccepted, hhand, hqueue, poolOf, hpvt, hstarted, hserved, hlogged, hdequeued]

theorem inHand_setCthread {cthread : cthread_elt_t} (hbefore : s.inHand t = none)
    (hafter : (s.setCthread t cthread).inHand t = none) : (s.setCthread t cthread).inHand = s.inHand := by
  funext t'
  by_cases hne : t' = t
  · rw [hne, hbefore, hafter]
  · rw [inHand, inHand, setCthread_cthreads, if_neg hne]

theorem inHand_idle (hidle : (s.cthreads t).thread_state = RPC_C_IDLE_CTHREAD) : s.inHand t = none := by
  rw [inHand, if_neg]
  rw [hidle]
  exact fun h => thread_state_t.noConfusion h.1

theorem busy_setCthread_of_ne (hne : t' ≠ t) :
    (s.setCthread t cthread).Busy t' ↔ s.Busy t' := by
  rw [Busy, Busy, waits_setCthread_of_ne cthread hne, setCthread_cthreads, if_neg hne]

theorem Inv.parked (h : s.Inv) (hlive : (s.cthreads t).place ≠ .gone) (hbusy : ¬ s.Waits t) (hhand : s.inHand t = none)
    (hqueue : (s.pools (s.cthreads t).pool).call_queue = []) : (s.parked t).Inv := by
  have hctbl : ∀ p, ((s.parked t).pools p).ctbl = (s.pools p).ctbl := fun p => by rw [parked_pool]; split <;> rfl
  have hstop : ∀ p, ((s.parked t).pools p).stop = (s.pools p).stop := fun p => by rw [parked_pool]; split <;> rfl
  have hqueues : ∀ p, ((s.parked t).pools p).call_queue = (s.pools p).call_queue := fun p => by rw [parked_pool]; split <;> rfl
  have hafter : (s.parked t).inHand t = none := by
    rw [inHand, parked_cthreads, if_pos rfl]
    split <;> rfl
  refine ⟨parked_tables h.tables hlive, parked_idle h.idle h.tables hlive hbusy, h.control.congr hctbl hstop rfl rfl rfl,
    h.queues.congr hqueues rfl (hctbl _) ?_, ?_, h.astray⟩
  · intro hne ts hts t' ht' hb
    have hother : t' ≠ t := by
      rintro rfl
      rw [(h.tables.pool _ ts hts t' ht').1] at hqueue
      exact hne hqueue
    exact (busy_setCthread_of_ne _ hother).mpr hb
  · have hdesk : (s.parked t).desk = s.desk :=
      desk_eq rfl (inHand_setCthread (s := s.CTHREAD_POOL_IDLE_THREAD t) hhand hafter) (hqueues _) rfl rfl rfl rfl rfl
    rw [hdesk]
    exact h.kept

theorem execute_cthreads (t' : Cthread) : (s.execute t call).cthreads t' =
    if t' = t then { s.cthreads t with call_rep := some call, place := .executing call } else s.cthreads t' :=
  setCthread_cthreads _ t'

theorem execute_tables (h : s.Tables) (call : Call) (hlive : (s.cthreads t).place ≠ .gone)
    (hstate : (s.cthreads t).thread_state ≠ RPC_C_NO_CTHREAD) : (s.execute t call).Tables := by
  have hset : (s.setCthread t { s.cthreads t with call_rep := some call, place := .executing call }).Tables :=
    h.setCthread rfl ⟨hstate, rfl⟩ hlive (fun hgone => by cases hgone)
  exact hset.congr (fun _ => rfl) (fun _ => rfl) rfl rfl

theorem execute_not_waits : ¬ (s.execute t call).Waits t := by
  rw [Waits, execute_cthreads, if_pos rfl]
  rintro ⟨-, hplace | hplace⟩ <;> cases hplace

theorem execute_busy : (s.execute t call).Busy t := by
  refine ⟨?_, execute_not_waits call⟩
  rw [execute_cthreads, if_pos rfl]
  exact fun hplace => by cases hplace

theorem execute_idle (h : s.Idle) (call : Call) (hbusy : ¬ s.Waits t) : (s.execute t call).Idle := by
  have hwaits : ∀ t', (s.execute t call).Waits t' ↔ s.Waits t' := by
    intro t'
    by_cases hne : t' = t
    · rw [hne]
      exact ⟨fun hw => absurd hw (execute_not_waits call), fun hw => absurd hw hbusy⟩
    · exact waits_setCthread_of_ne _ hne
  constructor
  · intro p ts hts hrun
    have hcount : ts.countP ((s.execute t call).Waits ·) = ts.countP (s.Waits ·) := by
      refine List.countP_congr fun t' _ => ?_
      simp only [decide_eq_true_eq]
      exact hwaits t'
    rw [hcount]
    exact h.count p ts hts hrun
  · intro p ts hts hrun t' ht'
    obtain ⟨hmem, hw⟩ := h.cthread p ts hts hrun t' ht'
    exact ⟨hmem, (hwaits t').mpr hw⟩

theorem inHand_execute : (s.execute t call).inHand = Function.update s.inHand t none := by
  funext t'
  by_cases hne : t' = t
  · subst hne
    rw [Function.update_self, inHand, if_neg]
    rw [execute_cthreads, if_pos rfl]
    rintro ⟨-, hplace | hplace | hplace⟩ <;> cases hplace
  · rw [Function.update_of_ne hne, inHand, inHand, execute_cthreads, if_neg hne]

theorem Idle.setCthread (h : s.Idle) (cthread : cthread_elt_t) (hwaits : (s.setCthread t cthread).Waits t ↔ s.Waits t) :
    (s.setCthread t cthread).Idle := by
  have hall : ∀ t', (s.setCthread t cthread).Waits t' ↔ s.Waits t' := by
    intro t'
    by_cases hne : t' = t
    · rw [hne]
      exact hwaits
    · exact waits_setCthread_of_ne cthread hne
  constructor
  · intro p ts hts hrun
    have hcount : ts.countP ((s.setCthread t cthread).Waits ·) = ts.countP (s.Waits ·) := by
      refine List.countP_congr fun t' _ => ?_
      simp only [decide_eq_true_eq]
      exact hall t'
    rw [hcount]
    exact h.count p ts hts hrun
  · intro p ts hts hrun t' ht'
    obtain ⟨hmem, hw⟩ := h.cthread p ts hts hrun t' ht'
    exact ⟨hmem, (hall t').mpr hw⟩

theorem Idle.setCthread_of_stop (h : s.Idle) (htables : s.Tables) (cthread : cthread_elt_t)
    (hstop : (s.pools (s.cthreads t).pool).stop = true) : (s.setCthread t cthread).Idle := by
  have hnot : ∀ p ts, (s.pools p).ctbl = some ts → (s.pools p).stop = false → t ∉ ts := by
    intro p ts hts hrun
    refine htables.not_mem hts ?_
    rintro rfl
    exact Bool.noConfusion (hstop.symm.trans hrun)
  constructor
  · intro p ts hts hrun
    rw [countP_eq_of_not_mem (hnot p ts hts hrun) fun t' hne => waits_setCthread_of_ne cthread hne]
    exact h.count p ts hts hrun
  · intro p ts hts hrun t' ht'
    obtain ⟨hmem, hw⟩ := h.cthread p ts hts hrun t' ht'
    exact ⟨hmem, (waits_setCthread_of_ne cthread (by rintro rfl; exact hnot p ts hts hrun hmem)).mpr hw⟩

theorem Inv.setCthread (h : s.Inv) {cthread : cthread_elt_t} (htables : (s.setCthread t cthread).Tables)
    (hidle : (s.setCthread t cthread).Idle) (hbusy : ¬ s.Busy t) (hbefore : s.inHand t = none)
    (hafter : (s.setCthread t cthread).inHand t = none) : (s.setCthread t cthread).Inv := by
  refine ⟨htables, hidle, h.control.congr (fun _ => rfl) (fun _ => rfl) rfl rfl rfl,
    h.queues.congr (fun _ => rfl) rfl rfl fun _ _ _ t' _ hb => ?_, ?_, h.astray⟩
  · exact (busy_setCthread_of_ne cthread (by rintro rfl; exact hbusy hb)).mpr hb
  · have hdesk : (s.setCthread t cthread).desk = s.desk := desk_eq rfl (inHand_setCthread hbefore hafter) rfl rfl rfl rfl rfl rfl
    rw [hdesk]
    exact h.kept

theorem desk_execute : (s.execute t call).desk = s.desk.begin call t := by
  have hhand : (s.execute t call).inHand = Function.update s.inHand t none := inHand_execute call
  simp only [desk, Desk.begin, hhand]
  rfl

theorem Inv.proceed (h : s.Inv) (hwoken : (s.cthreads t).place = .woken) : (s.proceed t).Inv := by
  have hlive : (s.cthreads t).place ≠ .gone := by
    rw [hwoken]
    exact fun hplace => by cases hplace
  have hfits := h.tables.fits t
  rw [cthread_elt_t.Fits, hwoken] at hfits
  obtain hidle | ⟨hactive, hrun, call, hcall⟩ := hfits
  · have hwaits : s.Waits t := ⟨hidle, .inr hwoken⟩
    cases hstop : (s.pools (s.cthreads t).pool).stop with
    | true =>
      rw [proceed_stop hstop]
      refine h.setCthread (h.tables.setCthread rfl rfl hlive fun _ => hstop) (h.idle.setCthread_of_stop h.tables _ hstop)
        (fun hb => hb.2 hwaits) (inHand_idle hidle) ?_
      rw [inHand, setCthread_cthreads, if_pos rfl, if_neg]
      exact fun hand => thread_state_t.noConfusion hand.1
    | false =>
      rw [proceed_wait hstop hidle]
      refine h.setCthread (h.tables.setCthread rfl ⟨hidle, hstop⟩ hlive fun hgone => by cases hgone)
        (h.idle.setCthread _ ?_) (fun hb => hb.2 hwaits) (inHand_idle hidle) (inHand_idle ?_)
      · rw [waits_setCthread_self]
        exact ⟨fun _ => hwaits, fun _ => ⟨hidle, .inl rfl⟩⟩
      · rw [setCthread_cthreads, if_pos rfl, hidle]
  · have hbusy : ¬ s.Waits t := fun hw => by
      rw [Waits, hactive] at hw
      exact thread_state_t.noConfusion hw.1
    rw [proceed_execute hrun hactive hcall]
    refine ⟨execute_tables h.tables call hlive (by rw [hactive]; decide), execute_idle h.idle call hbusy,
      h.control.congr (fun _ => rfl) (fun _ => rfl) rfl rfl rfl,
      h.queues.congr (fun _ => rfl) rfl rfl fun _ _ _ t' _ hb => ?_, ?_, h.astray⟩
    · by_cases hne : t' = t
      · rw [hne]
        exact execute_busy call
      · exact (busy_setCthread_of_ne _ hne).mpr hb
    · rw [desk_execute]
      refine h.kept.begin ?_
      change s.inHand t = some call
      rw [inHand, if_pos ⟨hactive, .inr (.inr hwoken)⟩, hcall]

end Cthreads

end dce.rpc
