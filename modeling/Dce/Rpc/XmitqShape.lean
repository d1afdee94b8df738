import Dce.Rpc.XmitqFack

open lib

namespace dce.rpc.xmitq

/-- A transmit queue of fragments that were sent and, behind them, fragments that were not. Its pointers are to elements of it. -/
structure Shaped (xq : rpc_dg_xmitq_t) (sent unsent : List rpc_dg_xmitq_elt_t) : Prop where
  queue : xq.queue = sent ++ unsent
  addrs : ((sent ++ unsent).map (·.addr)).Nodup
  sent_sent : ∀ xqe ∈ sent, xqe.was_sent = true
  unsent_not : ∀ xqe ∈ unsent, xqe.was_sent = false
  first_unsent : xq.first_unsent = unsent.head?.map (·.addr)
  tail : xq.tail = (sent ++ unsent).getLast?.map (·.addr)
  rexmitq : ∀ addr ∈ xq.rexmitq, addr ∈ sent.map (·.addr)

section Lists

variable {queue sent unsent : List rpc_dg_xmitq_elt_t} {addr : Addr} {f : rpc_dg_xmitq_elt_t → rpc_dg_xmitq_elt_t}

theorem update_at_append (left right : List rpc_dg_xmitq_elt_t) :
    update_at (left ++ right) addr f = update_at left addr f ++ update_at right addr f :=
  List.map_append

theorem update_at_of_notMem (hnot : addr ∉ queue.map (·.addr)) : update_at queue addr f = queue := by
  have hid : ∀ xqe ∈ queue, (if xqe.addr = addr then f xqe else xqe) = xqe := by
    intro xqe hxqe
    rw [if_neg]
    rintro rfl
    exact hnot (List.mem_map_of_mem hxqe)
  exact (List.map_congr_left hid).trans (List.map_id' queue)

theorem update_at_addrs (haddr : ∀ xqe, (f xqe).addr = xqe.addr) :
    (update_at queue addr f).map (·.addr) = queue.map (·.addr) := by
  rw [update_at, List.map_map]
  refine List.map_congr_left fun xqe _ => ?_
  dsimp only [Function.comp_apply]
  split_ifs
  · exact haddr xqe
  · rfl

theorem getLast?_addr_congr {left right : List rpc_dg_xmitq_elt_t} (hsame : left.map (·.addr) = right.map (·.addr)) :
    left.getLast?.map (·.addr) = right.getLast?.map (·.addr) := by
  rw [← List.getLast?_map, ← List.getLast?_map, hsame]

theorem next_of_append {xqe : rpc_dg_xmitq_elt_t} (hnot : xqe.addr ∉ sent.map (·.addr)) :
    next_of (sent ++ xqe :: unsent) xqe.addr = unsent.head?.map (·.addr) := by
  induction sent with
  | nil => simp [next_of]
  | cons head sent ih =>
    obtain ⟨hhead, hrest⟩ := List.ne_and_not_mem_of_not_mem_cons hnot
    rw [List.cons_append, next_of, if_neg (Ne.symm hhead)]
    exact ih hrest

end Lists

section Transmit

variable {xq : rpc_dg_xmitq_t} {sent unsent : List rpc_dg_xmitq_elt_t}

theorem Shaped.congr {xq' : rpc_dg_xmitq_t} (hshape : Shaped xq sent unsent) (hqueue : xq'.queue = xq.queue)
    (hfirst : xq'.first_unsent = xq.first_unsent) (htail : xq'.tail = xq.tail)
    (hrexmitq : ∀ addr ∈ xq'.rexmitq, addr ∈ sent.map (·.addr)) : Shaped xq' sent unsent where
  queue := hqueue.trans hshape.queue
  addrs := hshape.addrs
  sent_sent := hshape.sent_sent
  unsent_not := hshape.unsent_not
  first_unsent := hfirst.trans hshape.first_unsent
  tail := htail.trans hshape.tail
  rexmitq := hrexmitq

theorem Shaped.notMem_sent {xqe : rpc_dg_xmitq_elt_t} (hshape : Shaped xq sent (xqe :: unsent)) :
    xqe.addr ∉ sent.map (·.addr) := by
  have hnodup := hshape.addrs
  rw [List.map_append, List.nodup_append] at hnodup
  intro hmem
  exact hnodup.2.2 xqe.addr hmem xqe.addr (by simp) rfl

theorem Shaped.notMem_unsent {addr : Addr} (hshape : Shaped xq sent unsent) (hsent : addr ∈ sent.map (·.addr)) :
    addr ∉ unsent.map (·.addr) := by
  have hnodup := hshape.addrs
  rw [List.map_append, List.nodup_append] at hnodup
  intro hmem
  exact hnodup.2.2 addr hsent addr hmem rfl

theorem Shaped.append {addr : Addr} (hshape : Shaped xq sent unsent) (hfresh : addr ∉ xq.queue.map (·.addr)) :
    ∃ xq', rpc__dg_xmitq_append_pp xq (some addr) = some xq' ∧ Shaped xq' sent (unsent ++ [filled addr xq.next_fragnum]) := by
  have hqueue := hshape.queue
  have hfirst := hshape.first_unsent
  have hshaped : ∀ xq' : rpc_dg_xmitq_t, xq'.queue = xq.queue ++ [filled addr xq.next_fragnum] → xq'.tail = some addr →
      xq'.rexmitq = xq.rexmitq →
      xq'.first_unsent = (unsent ++ [filled addr xq.next_fragnum]).head?.map (·.addr) →
      Shaped xq' sent (unsent ++ [filled addr xq.next_fragnum]) := by
    intro xq' hqueue' htail' hrexmitq' hfirst'
    refine
      { queue := by rw [hqueue', hqueue, List.append_assoc]
        addrs := ?_
        sent_sent := hshape.sent_sent
        unsent_not := ?_
        first_unsent := hfirst'
        tail := by rw [htail', ← List.append_assoc, List.getLast?_concat]; rfl
        rexmitq := by rw [hrexmitq']; exact hshape.rexmitq }
    · rw [hqueue] at hfresh
      rw [← List.append_assoc, List.map_append, List.nodup_append]
      refine ⟨hshape.addrs, by simp, ?_⟩
      intro a ha b hb
      obtain rfl : b = addr := by simpa [filled] using hb
      rintro rfl
      exact hfresh ha
    · intro xqe hxqe
      obtain hold | hnew := List.mem_append.mp hxqe
      · exact hshape.unsent_not xqe hold
      · obtain rfl : xqe = filled addr xq.next_fragnum := by simpa using hnew
        rfl
  unfold rpc__dg_xmitq_append_pp
  dsimp only
  by_cases hempty : xq.queue = []
  · rw [if_pos hempty]
    refine ⟨_, rfl, hshaped _ rfl rfl rfl ?_⟩
    obtain ⟨-, rfl⟩ := List.append_eq_nil_iff.mp (hqueue.symm.trans hempty)
    rfl
  · rw [if_neg hempty, if_pos (by rw [hshape.tail, hqueue])]
    refine ⟨_, rfl, hshaped _ rfl rfl rfl ?_⟩
    dsimp only
    rw [hfirst]
    cases unsent with
    | nil => rfl
    | cons xqe rest => rfl

theorem xmit_elt_eq (blast_size extra_fack num_sent : ℕ) (addr : Addr) :
    ∃ f : rpc_dg_xmitq_elt_t → rpc_dg_xmitq_elt_t, (∀ xqe, (f xqe).addr = xqe.addr ∧ (f xqe).was_sent = true) ∧
      (xmit_elt blast_size extra_fack num_sent xq addr).queue = update_at xq.queue addr f :=
  ⟨transmitted xq (asks_fack xq blast_size extra_fack num_sent), fun _ => ⟨rfl, rfl⟩, rfl⟩

theorem Shaped.resend {addr : Addr} (hshape : Shaped xq sent unsent) (hsent : addr ∈ sent.map (·.addr))
    (blast_size extra_fack num_sent : ℕ) :
    ∃ sent', sent'.map (·.addr) = sent.map (·.addr) ∧
      Shaped (xmit_elt blast_size extra_fack num_sent xq addr) sent' unsent := by
  obtain ⟨f, hf, hqueue⟩ := xmit_elt_eq blast_size extra_fack num_sent addr
  have haddrs : (update_at sent addr f).map (·.addr) = sent.map (·.addr) := update_at_addrs fun xqe => (hf xqe).1
  refine ⟨update_at sent addr f, haddrs, ?_⟩
  refine
    { queue := ?_
      addrs := by rw [List.map_append, haddrs, ← List.map_append]; exact hshape.addrs
      sent_sent := ?_
      unsent_not := hshape.unsent_not
      first_unsent := hshape.first_unsent
      tail := ?_
      rexmitq := by rw [haddrs]; exact hshape.rexmitq }
  · rw [hqueue, hshape.queue, update_at_append, update_at_of_notMem (hshape.notMem_unsent hsent)]
  · intro xqe hxqe
    obtain ⟨old, hold, rfl⟩ := List.mem_map.mp hxqe
    split_ifs
    · exact (hf old).2
    · exact hshape.sent_sent old hold
  · have hsame : (update_at sent addr f ++ unsent).map (·.addr) = (sent ++ unsent).map (·.addr) := by
      rw [List.map_append, haddrs, ← List.map_append]
    exact hshape.tail.trans (getLast?_addr_congr hsame).symm

theorem Shaped.send {xqe : rpc_dg_xmitq_elt_t} (hshape : Shaped xq sent (xqe :: unsent)) (blast_size extra_fack num_sent : ℕ) :
    ∃ sent', sent'.map (·.addr) = (sent ++ [xqe]).map (·.addr) ∧
      Shaped
        { xmit_elt blast_size extra_fack num_sent xq xqe.addr with
          first_unsent := next_of (xmit_elt blast_size extra_fack num_sent xq xqe.addr).queue xqe.addr }
        sent' unsent := by
  obtain ⟨f, hf, hqueue⟩ := xmit_elt_eq blast_size extra_fack num_sent xqe.addr
  have hnot := hshape.notMem_sent
  have hnodup := hshape.addrs
  rw [List.map_append, List.nodup_append, List.map_cons, List.nodup_cons] at hnodup
  have hqueue' : (xmit_elt blast_size extra_fack num_sent xq xqe.addr).queue = (sent ++ [f xqe]) ++ unsent := by
    rw [hqueue, hshape.queue, update_at_append, update_at_of_notMem hnot]
    have htail : update_at (xqe :: unsent) xqe.addr f = f xqe :: update_at unsent xqe.addr f := by simp [update_at]
    rw [htail, update_at_of_notMem hnodup.2.1.1, List.append_assoc, List.singleton_append]
  have haddr : (f xqe).addr = xqe.addr := (hf xqe).1
  have hsame : ((sent ++ [f xqe]) ++ unsent).map (·.addr) = (sent ++ xqe :: unsent).map (·.addr) := by simp [haddr]
  refine ⟨sent ++ [f xqe], by simp [haddr], ?_⟩
  refine
    { queue := hqueue'
      addrs := by rw [hsame]; exact hshape.addrs
      sent_sent := ?_
      unsent_not := fun old hold => hshape.unsent_not old (List.mem_cons_of_mem xqe hold)
      first_unsent := ?_
      tail := hshape.tail.trans (getLast?_addr_congr hsame).symm
      rexmitq := fun addr haddr => ?_ }
  · intro old hold
    obtain hbefore | hnew := List.mem_append.mp hold
    · exact hshape.sent_sent old hbefore
    · obtain rfl : old = f xqe := by simpa using hnew
      exact (hf xqe).2
  · dsimp only
    rw [hqueue', List.append_assoc, List.singleton_append, ← haddr]
    exact next_of_append (by rwa [haddr])
  · rw [List.map_append]
    exact List.mem_append_left _ (hshape.rexmitq addr haddr)

theorem Shaped.xmit_loop (blast_size extra_fack n : ℕ) {rexmitq : List Addr} (hshape : Shaped xq sent unsent)
    (hrexmitq : ∀ addr ∈ rexmitq, addr ∈ sent.map (·.addr)) :
    ∃ result sent' unsent', xmitq.xmit_loop blast_size extra_fack n rexmitq xq = some result ∧
      Shaped result.1 sent' unsent' ∧ (sent' ++ unsent').map (·.addr) = (sent ++ unsent).map (·.addr) := by
  induction n generalizing xq sent unsent rexmitq with
  | zero => exact ⟨(xq, 0), sent, unsent, rfl, hshape, rfl⟩
  | succ n ih =>
    cases rexmitq with
    | cons addr rexmitq =>
      have hsent := hrexmitq addr List.mem_cons_self
      have hhas : xq.has addr := by
        rw [rpc_dg_xmitq_t.has, hshape.queue, List.map_append]
        exact List.mem_append_left _ hsent
      obtain ⟨sent', haddrs, hshape'⟩ := hshape.resend hsent blast_size extra_fack (blast_size - n)
      obtain ⟨result, sent'', unsent'', hloop, hresult, hsame⟩ := ih hshape' (by
        intro addr' hmem
        rw [haddrs]
        exact hrexmitq addr' (List.mem_cons_of_mem addr hmem))
      refine ⟨result, sent'', unsent'', ?_, hresult, ?_⟩
      · rw [xmitq.xmit_loop, if_pos hhas]
        exact hloop
      · rw [hsame, List.map_append, haddrs, ← List.map_append]
    | nil =>
      cases unsent with
      | nil =>
        have hfirst : xq.first_unsent = none := hshape.first_unsent
        refine ⟨(xq, n + 1), sent, [], ?_, hshape, rfl⟩
        rw [xmitq.xmit_loop, hfirst]
      | cons xqe unsent =>
        have hfirst : xq.first_unsent = some xqe.addr := hshape.first_unsent
        have hhas : xq.has xqe.addr := by
          rw [rpc_dg_xmitq_t.has, hshape.queue]
          simp
        obtain ⟨sent', haddrs, hshape'⟩ := hshape.send blast_size extra_fack (blast_size - n)
        obtain ⟨result, sent'', unsent'', hloop, hresult, hsame⟩ := ih hshape' fun addr (haddr : addr ∈ []) => absurd haddr List.not_mem_nil
        refine ⟨result, sent'', unsent'', ?_, hresult, ?_⟩
        · rw [xmitq.xmit_loop, hfirst]
          dsimp only
          rw [if_pos hhas]
          exact hloop
        · rw [hsame, List.map_append, haddrs]
          simp

theorem Shaped.call_xmit (hshape : Shaped xq sent unsent) :
    ∃ xq' sent' unsent', rpc__dg_call_xmit xq = some xq' ∧ Shaped xq' sent' unsent' ∧
      (sent' ++ unsent').map (·.addr) = (sent ++ unsent).map (·.addr) := by
  obtain ⟨result, sent', unsent', hloop, hshape', hsame⟩ :=
    hshape.xmit_loop xq.blast_size.toNat (extra_fack xq) xq.blast_size.toNat hshape.rexmitq
  refine ⟨end_blast result.1 (xq.blast_size.toNat - result.2), sent', unsent', ?_,
    hshape'.congr rfl rfl rfl (by simp [end_blast]), hsame⟩
  simp only [rpc__dg_call_xmit, hloop, Option.map_some]

theorem Shaped.with_blast (hshape : Shaped xq sent unsent) (blast_size : BitVec 8) (push : Bool) :
    Shaped { xq with blast_size, push } sent unsent :=
  hshape.congr rfl rfl rfl hshape.rexmitq

theorem Shaped.start_window (hshape : Shaped xq sent unsent) (n_resvs : ℕ) :
    ∃ xq' sent' unsent', xmitq.start_window xq n_resvs = some xq' ∧ Shaped xq' sent' unsent' ∧
      (sent' ++ unsent').map (·.addr) = (sent ++ unsent).map (·.addr) := by
  unfold xmitq.start_window
  split_ifs
  · exact (hshape.with_blast 1 xq.push).call_xmit
  · exact (hshape.with_blast 2 xq.push).call_xmit
  · exact ⟨xq, sent, unsent, rfl, hshape, rfl⟩
  · exact ⟨xq, sent, unsent, rfl, hshape, rfl⟩

section Counts

variable (or_last : Bool) (xqe : rpc_dg_xmitq_elt_t)

@[simp] theorem uncount_queue : (uncount or_last xq xqe).queue = xq.queue := by
  unfold uncount
  split_ifs <;> rfl

@[simp] theorem uncount_first_unsent : (uncount or_last xq xqe).first_unsent = xq.first_unsent := by
  unfold uncount
  split_ifs <;> rfl

@[simp] theorem uncount_tail : (uncount or_last xq xqe).tail = xq.tail := by
  unfold uncount
  split_ifs <;> rfl

@[simp] theorem uncount_rexmitq : (uncount or_last xq xqe).rexmitq = xq.rexmitq := by
  unfold uncount
  split_ifs <;> rfl

@[simp] theorem uncount_last_fack_serial : (uncount or_last xq xqe).last_fack_serial = xq.last_fack_serial := by
  unfold uncount
  split_ifs <;> rfl

@[simp] theorem uncount_next_fragnum : (uncount or_last xq xqe).next_fragnum = xq.next_fragnum := by
  unfold uncount
  split_ifs <;> rfl

@[simp] theorem uncount_frag : (uncount or_last xq xqe).frag = xq.frag := by
  unfold uncount
  split_ifs <;> rfl

@[simp] theorem leave_window_addr : (leave_window xqe).addr = xqe.addr := rfl

@[simp] theorem leave_window_was_sent : (leave_window xqe).was_sent = xqe.was_sent := rfl

end Counts

variable (xq) in
theorem foldl_uncount_spec (or_last : Bool) (xqes : List rpc_dg_xmitq_elt_t) :
    (xqes.foldl (uncount or_last) xq).first_unsent = xq.first_unsent ∧
      (xqes.foldl (uncount or_last) xq).tail = xq.tail ∧ (xqes.foldl (uncount or_last) xq).rexmitq = xq.rexmitq ∧
      (xqes.foldl (uncount or_last) xq).next_fragnum = xq.next_fragnum ∧
      (xqes.foldl (uncount or_last) xq).frag = xq.frag := by
  induction xqes generalizing xq with
  | nil => exact ⟨rfl, rfl, rfl, rfl, rfl⟩
  | cons xqe rest ih =>
    obtain ⟨hfirst, htail, hrexmitq, hnext, hfrag⟩ := ih (uncount or_last xq xqe)
    rw [List.foldl_cons]
    exact ⟨by rw [hfirst, uncount_first_unsent], by rw [htail, uncount_tail], by rw [hrexmitq, uncount_rexmitq],
      by rw [hnext, uncount_next_fragnum], by rw [hfrag, uncount_frag]⟩

theorem Shaped.leave {xq' : rpc_dg_xmitq_t} {sent' : List rpc_dg_xmitq_elt_t} (hshape : Shaped xq sent unsent)
    (hqueue : xq'.queue = sent' ++ unsent) (haddrs : sent'.map (·.addr) = sent.map (·.addr))
    (hsent : ∀ xqe ∈ sent', xqe.was_sent = true) (hfirst : xq'.first_unsent = xq.first_unsent) (htail : xq'.tail = xq.tail)
    (hrexmitq : ∀ addr ∈ xq'.rexmitq, addr ∈ sent.map (·.addr)) : Shaped xq' sent' unsent where
  queue := hqueue
  addrs := by rw [List.map_append, haddrs, ← List.map_append]; exact hshape.addrs
  sent_sent := hsent
  unsent_not := hshape.unsent_not
  first_unsent := hfirst.trans hshape.first_unsent
  tail := by
    have hsame : (sent' ++ unsent).map (·.addr) = (sent ++ unsent).map (·.addr) := by
      rw [List.map_append, haddrs, ← List.map_append]
    exact (htail.trans hshape.tail).trans (getLast?_addr_congr hsame).symm
  rexmitq := by rw [haddrs]; exact hrexmitq

theorem Shaped.first_unsent_ne {xqe : rpc_dg_xmitq_elt_t} (hshape : Shaped xq (xqe :: sent) unsent) :
    xq.first_unsent ≠ some xqe.addr := by
  rw [hshape.first_unsent]
  intro heq
  obtain ⟨first, hfirst, haddr⟩ := Option.map_eq_some_iff.mp heq
  have hmem : xqe.addr ∈ unsent.map (·.addr) := by
    rw [← haddr]
    exact List.mem_map_of_mem (List.mem_of_head? hfirst)
  exact hshape.notMem_unsent (by simp) hmem

variable (hshape : Shaped xq sent unsent)

include hshape

theorem Shaped.timer : ∃ sent' unsent', Shaped (rpc__dg_call_xmitq_timer xq) sent' unsent' ∧
      (sent' ++ unsent').map (·.addr) = (sent ++ unsent).map (·.addr) ∧ (sent ≠ [] → unsent' = unsent) := by
  unfold rpc__dg_call_xmitq_timer
  cases sent with
  | nil =>
    cases unsent with
    | nil =>
      rw [show xq.queue = [] from hshape.queue]
      exact ⟨[], [], hshape, rfl, fun _ => rfl⟩
    | cons xqe rest =>
      rw [show xq.queue = xqe :: rest from hshape.queue]
      have hfirst : xq.first_unsent = some xqe.addr := hshape.first_unsent
      have hrexmitq : xq.rexmitq = [] := by
        refine List.eq_nil_iff_forall_not_mem.mpr fun addr haddr => ?_
        simpa using hshape.rexmitq addr haddr
      refine ⟨[], leave_window xqe :: rest, ?_, by simp, fun hne => absurd rfl hne⟩
      refine
        { queue := rfl
          addrs := by simpa using hshape.addrs
          sent_sent := by simp
          unsent_not := ?_
          first_unsent := by simpa using hfirst
          tail := ?_
          rexmitq := ?_ }
      · intro old hold
        obtain rfl | hrest := List.mem_cons.mp hold
        · exact hshape.unsent_not xqe List.mem_cons_self
        · exact hshape.unsent_not old (List.mem_cons_of_mem xqe hrest)
      · have hsame : (leave_window xqe :: rest).map (·.addr) = (xqe :: rest).map (·.addr) := by simp
        exact (uncount_tail true xqe).trans (hshape.tail.trans (getLast?_addr_congr hsame).symm)
      · simp [hfirst, hrexmitq]
  | cons xqe sent =>
    rw [show xq.queue = xqe :: (sent ++ unsent) from hshape.queue]
    refine ⟨leave_window xqe :: sent, unsent, ?_, by simp, fun _ => rfl⟩
    refine hshape.leave rfl (by simp) ?_ (uncount_first_unsent true xqe) (uncount_tail true xqe) ?_
    · intro old hold
      obtain rfl | hrest := List.mem_cons.mp hold
      · exact hshape.sent_sent xqe List.mem_cons_self
      · exact hshape.sent_sent old (List.mem_cons_of_mem xqe hrest)
    · simp [hshape.first_unsent_ne]

theorem Shaped.takeWhile_dropWhile : (xq.queue.takeWhile fun xqe => some xqe.addr ≠ xq.first_unsent) = sent ∧
      (xq.queue.dropWhile fun xqe => some xqe.addr ≠ xq.first_unsent) = unsent := by
  have hsent : ∀ xqe ∈ sent, decide (some xqe.addr ≠ xq.first_unsent) = true := by
    intro xqe hxqe
    rw [hshape.first_unsent, decide_eq_true_iff]
    intro heq
    obtain ⟨first, hfirst, haddr⟩ := Option.map_eq_some_iff.mp heq.symm
    refine hshape.notMem_unsent (List.mem_map_of_mem hxqe) ?_
    rw [← haddr]
    exact List.mem_map_of_mem (List.mem_of_head? hfirst)
  rw [hshape.queue, List.takeWhile_append_of_pos hsent, List.dropWhile_append_of_pos hsent]
  cases unsent with
  | nil => simp
  | cons xqe rest =>
    have hfirst : xq.first_unsent = some xqe.addr := hshape.first_unsent
    simp [hfirst]

theorem Shaped.restart : ∃ sent', Shaped (rpc__dg_xmitq_restart xq) sent' unsent ∧ sent'.map (·.addr) = sent.map (·.addr) := by
  obtain ⟨htake, hdrop⟩ := hshape.takeWhile_dropWhile
  unfold rpc__dg_xmitq_restart
  split_ifs with hblast
  · exact ⟨sent, hshape, rfl⟩
  · rw [htake, hdrop]
    obtain ⟨hfirst, htail, -, -, -⟩ := foldl_uncount_spec xq true sent
    have haddrs : (sent.map leave_window).map (·.addr) = sent.map (·.addr) := by simp [Function.comp_def]
    refine ⟨sent.map leave_window, hshape.leave rfl haddrs ?_ hfirst htail ?_, haddrs⟩
    · intro xqe hxqe
      obtain ⟨old, hold, rfl⟩ := List.mem_map.mp hxqe
      exact hshape.sent_sent old hold
    · dsimp only
      split_ifs
      · exact hshape.rexmitq
      · exact fun addr haddr => haddr

end Transmit

section Tally

/-- The counts of a queue are those of the given elements: `cwindow_size` of the packets in the window, `freqs_out` of those
among them that asked for a fack. -/
structure Tallied (xq : rpc_dg_xmitq_t) (queue : List rpc_dg_xmitq_elt_t) : Prop where
  cwindow_size : xq.cwindow_size.toNat = queue.countP (·.in_cwindow)
  freqs_out : xq.freqs_out.toNat = queue.countP fun xqe => xqe.in_cwindow && !xqe.no_fack
  last_frag : ∀ xqe ∈ queue, xqe.last_frag = false
  no_fack : xq.frag = false → ∀ xqe ∈ queue, xqe.no_fack = false

variable {xq : rpc_dg_xmitq_t} {xqe : rpc_dg_xmitq_elt_t} {left right : List rpc_dg_xmitq_elt_t} (or_last : Bool)

theorem Tallied.congr {xq' : rpc_dg_xmitq_t} {queue : List rpc_dg_xmitq_elt_t} (h : Tallied xq queue)
    (hcwindow : xq'.cwindow_size = xq.cwindow_size) (hfreqs : xq'.freqs_out = xq.freqs_out) (hfrag : xq'.frag = xq.frag) :
    Tallied xq' queue where
  cwindow_size := by rw [hcwindow, h.cwindow_size]
  freqs_out := by rw [hfreqs, h.freqs_out]
  last_frag := h.last_frag
  no_fack := by rw [hfrag]; exact h.no_fack

theorem toNat_pred {w : ℕ} {x : BitVec w} {n : ℕ} (hx : x.toNat = n + 1) : (x - 1).toNat = n := by
  have hlt := x.isLt
  have hone : (1#w).toNat = 1 := by
    rw [BitVec.toNat_ofNat]
    exact Nat.mod_eq_of_lt (by omega)
  change (x - 1#w).toNat = n
  rw [BitVec.toNat_sub_of_le (by rw [BitVec.le_def, hone]; omega), hone]
  omega

theorem Tallied.uncounted {middle : List rpc_dg_xmitq_elt_t} (h : Tallied xq (left ++ xqe :: right))
    (hmiddle : middle = [] ∨ middle = [leave_window xqe]) : Tallied (uncount or_last xq xqe) (left ++ middle ++ right) := by
  have hout : middle.countP (·.in_cwindow) = 0 ∧ (middle.countP fun xqe => xqe.in_cwindow && !xqe.no_fack) = 0 := by
    obtain rfl | rfl := hmiddle <;> exact ⟨rfl, rfl⟩
  have hmem : ∀ old ∈ left ++ middle ++ right, ∃ same ∈ left ++ xqe :: right,
      old.last_frag = same.last_frag ∧ old.no_fack = same.no_fack := by
    intro old hold
    rw [List.append_assoc, List.mem_append, List.mem_append] at hold
    obtain hleft | hin | hright := hold
    · exact ⟨old, List.mem_append_left _ hleft, rfl, rfl⟩
    · obtain rfl | rfl := hmiddle
      · exact absurd hin List.not_mem_nil
      · obtain rfl : old = leave_window xqe := by simpa using hin
        exact ⟨xqe, List.mem_append_right _ List.mem_cons_self, rfl, rfl⟩
    · exact ⟨old, List.mem_append_right _ (List.mem_cons_of_mem xqe hright), rfl, rfl⟩
  have hlast : xqe.last_frag = false := h.last_frag xqe (by simp)
  have hcwindow := h.cwindow_size
  have hfreqs := h.freqs_out
  rw [List.countP_append, List.countP_cons] at hcwindow hfreqs
  refine
    { cwindow_size := ?_
      freqs_out := ?_
      last_frag := ?_
      no_fack := ?_ }
  · rw [List.countP_append, List.countP_append, hout.1]
    by_cases hin : xqe.in_cwindow = true
    · rw [if_pos hin] at hcwindow
      rw [uncount, if_pos hin]
      exact (toNat_pred (n := left.countP (·.in_cwindow) + right.countP (·.in_cwindow)) (by omega)).trans (by omega)
    · rw [if_neg hin] at hcwindow
      rw [uncount, if_neg hin]
      omega
  · rw [List.countP_append, List.countP_append, hout.2]
    by_cases hin : xqe.in_cwindow = true
    · rw [uncount, if_pos hin]
      cases hfack : xqe.no_fack with
      | false =>
        rw [if_pos (by simp [hin, hfack])] at hfreqs
        exact (toNat_pred (n := (left.countP fun xqe => xqe.in_cwindow && !xqe.no_fack) +
          right.countP fun xqe => xqe.in_cwindow && !xqe.no_fack) (by omega)).trans (by omega)
      | true =>
        rw [if_neg (by simp [hfack])] at hfreqs
        simp only [hlast, Bool.not_true, Bool.and_false, Bool.or_self, Bool.false_eq_true, if_false]
        omega
    · rw [if_neg (by simp [hin])] at hfreqs
      rw [uncount, if_neg hin]
      omega
  · intro old hold
    obtain ⟨same, hsame, heq, -⟩ := hmem old hold
    rw [heq]
    exact h.last_frag same hsame
  · intro hfrag old hold
    rw [uncount_frag] at hfrag
    obtain ⟨same, hsame, -, heq⟩ := hmem old hold
    rw [heq]
    exact h.no_fack hfrag same hsame

variable (left) in
theorem Tallied.uncount (h : Tallied xq (left ++ xqe :: right)) : Tallied (xmitq.uncount or_last xq xqe) (left ++ right) := by
  simpa using h.uncounted or_last (.inl rfl)

variable (left) in
theorem Tallied.leave (h : Tallied xq (left ++ xqe :: right)) :
    Tallied (xmitq.uncount or_last xq xqe) (left ++ leave_window xqe :: right) := by
  simpa using h.uncounted or_last (.inr rfl)

theorem Tallied.foldl_uncount (h : Tallied xq (left ++ right)) :
    Tallied (left.foldl (xmitq.uncount or_last) xq) right := by
  induction left generalizing xq with
  | nil => exact h
  | cons xqe left ih => exact ih (Tallied.uncount [] or_last h)

theorem Tallied.foldl_leave (kept : List rpc_dg_xmitq_elt_t) (h : Tallied xq (kept ++ (left ++ right))) :
    Tallied (left.foldl (xmitq.uncount or_last) xq) (kept ++ (left.map leave_window ++ right)) := by
  induction left generalizing xq kept with
  | nil => exact h
  | cons xqe left ih =>
    have hleave := ih (kept ++ [leave_window xqe]) (by simpa using Tallied.leave kept or_last h)
    simpa using hleave

end Tally

end dce.rpc.xmitq
