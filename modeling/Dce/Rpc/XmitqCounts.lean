import Dce.Rpc.XmitqRuns

open lib

namespace dce.rpc.xmitq

section Definitions

def not_yet_sent (xq : rpc_dg_xmitq_t) : List rpc_dg_xmitq_elt_t :=
  xq.queue.dropWhile fun xqe => some xqe.addr ≠ xq.first_unsent

/-- The number of packets that are queued to be sent: those to be retransmitted and those that were not sent. -/
def queued_to_send (xq : rpc_dg_xmitq_t) : ℕ := xq.rexmitq.length + (not_yet_sent xq).length

def num_sent (xq : rpc_dg_xmitq_t) : ℕ := min xq.blast_size.toNat (queued_to_send xq)

def num_requests (xq : rpc_dg_xmitq_t) : ℕ :=
  (List.range' 1 (num_sent xq)).countP (asks_fack xq xq.blast_size.toNat (extra_fack xq))

/-- The numbers of fragments that are the last ones before the given number. -/
def Numbered (next_fragnum : BitVec 16) : List rpc_dg_xmitq_elt_t → Prop
  | [] => True
  | xqe :: rest => xqe.fragnum = next_fragnum - BitVec.ofNat 16 (rest.length + 1) ∧ Numbered next_fragnum rest

/-- The accounts of a transmit queue: its counts are those of its elements, the packets that are to be retransmitted or were not
sent are out of the window, and the unsent fragments are numbered up to the next one. -/
structure Accounted (xq : rpc_dg_xmitq_t) : Prop where
  tallied : Tallied xq xq.queue
  rexmit_nodup : xq.rexmitq.Nodup
  rexmit_out : ∀ xqe ∈ xq.queue, xqe.addr ∈ xq.rexmitq → xqe.in_cwindow = false
  unsent_out : ∀ xqe ∈ not_yet_sent xq, xqe.in_cwindow = false
  numbered : Numbered xq.next_fragnum (not_yet_sent xq)

/-- The accounts are exact when no more packets are released than are queued to be sent. -/
structure Exact (xq : rpc_dg_xmitq_t) : Prop extends Accounted xq where
  released : xq.blast_size.toNat ≤ queued_to_send xq

end Definitions

section Numbers

variable {next_fragnum : BitVec 16} {unsent : List rpc_dg_xmitq_elt_t}

theorem Numbered.drop (h : Numbered next_fragnum unsent) (n : ℕ) : Numbered next_fragnum (unsent.drop n) := by
  induction n generalizing unsent with
  | zero => exact h
  | succ n ih =>
    cases unsent with
    | nil => trivial
    | cons xqe rest => exact ih h.2

theorem Numbered.append (h : Numbered next_fragnum unsent) (addr : Addr) :
    Numbered (next_fragnum + 1) (unsent ++ [filled addr next_fragnum]) := by
  induction unsent with
  | nil =>
    refine ⟨?_, trivial⟩
    change next_fragnum = next_fragnum + 1 - BitVec.ofNat 16 1
    bv_omega
  | cons xqe rest ih =>
    refine ⟨?_, ih h.2⟩
    have hlen : (rest ++ [filled addr next_fragnum]).length = rest.length + 1 := List.length_append
    change xqe.fragnum = next_fragnum + 1 - BitVec.ofNat 16 ((rest ++ [filled addr next_fragnum]).length + 1)
    rw [h.1, hlen]
    bv_omega

theorem Numbered.countsUnsent {xq : rpc_dg_xmitq_t} (h : Numbered xq.next_fragnum unsent)
    (hsign : ∀ first, unsent.head? = some first →
      if first.fragnum.toNat < 2 ^ 15 then first.fragnum.toNat ≤ xq.next_fragnum.toNat
      else xq.next_fragnum.toNat < first.fragnum.toNat) : CountsUnsent xq unsent := by
  intro first hfirst
  have hfits := hsign first hfirst
  cases unsent with
  | nil => simp at hfirst
  | cons xqe rest =>
    obtain rfl : xqe = first := by simpa using hfirst
    have hnumber := h.1
    have hlen : (xqe :: rest).length = rest.length + 1 := rfl
    rw [hlen]
    generalize rest.length + 1 = n at hnumber
    have hsum : (xqe.fragnum.toNat + n) % 2 ^ 16 = xq.next_fragnum.toNat := by
      rw [hnumber, BitVec.toNat_sub, BitVec.toNat_ofNat]
      have hlt := xq.next_fragnum.isLt
      omega
    have hlt := xqe.fragnum.isLt
    rw [BitVec.toInt_eq_toNat_cond]
    split_ifs at hfits with hsmall
    · rw [if_pos (by omega)]
      omega
    · rw [if_neg (by omega)]
      omega

end Numbers

section Transmission

variable {xq : rpc_dg_xmitq_t} {sent unsent : List rpc_dg_xmitq_elt_t} {xqe : rpc_dg_xmitq_elt_t}

theorem countP_update_at {queue : List rpc_dg_xmitq_elt_t} {P : rpc_dg_xmitq_elt_t → Bool}
    {f : rpc_dg_xmitq_elt_t → rpc_dg_xmitq_elt_t} (hnodup : (queue.map (·.addr)).Nodup) (hmem : xqe ∈ queue)
    (hnot : P xqe = false) :
    (update_at queue xqe.addr f).countP P = queue.countP P + if P (f xqe) then 1 else 0 := by
  obtain ⟨left, right, rfl⟩ := List.append_of_mem hmem
  rw [List.map_append, List.nodup_append, List.map_cons, List.nodup_cons] at hnodup
  have hleft : xqe.addr ∉ left.map (·.addr) := fun h => hnodup.2.2 _ h _ List.mem_cons_self rfl
  have hmiddle : update_at (xqe :: right) xqe.addr f = f xqe :: update_at right xqe.addr f := by simp [update_at]
  rw [update_at_append, update_at_of_notMem hleft, hmiddle, update_at_of_notMem hnodup.2.1.1, List.countP_append,
    List.countP_append, List.countP_cons, List.countP_cons, hnot]
  simp only [Bool.false_eq_true, if_false]
  omega

/-- The counts of a queue when `cwindow_size` is going to be the given one. -/
def CountsTo (xq : rpc_dg_xmitq_t) (cwindow_size : BitVec 16) : Prop := Tallied { xq with cwindow_size } xq.queue

theorem CountsTo.xmit_elt {cwindow_size : BitVec 16} (blast_size extra_fack num_sent : ℕ) (h : CountsTo xq cwindow_size)
    (hnodup : (xq.queue.map (·.addr)).Nodup) (hmem : xqe ∈ xq.queue) (hout : xqe.in_cwindow = false)
    (hcwindow : cwindow_size.toNat + 1 < 2 ^ 16)
    (hfreqs : asks_fack xq blast_size extra_fack num_sent = true → xq.freqs_out.toNat + 1 < 2 ^ 8) :
    CountsTo (xmitq.xmit_elt blast_size extra_fack num_sent xq xqe.addr) (cwindow_size + 1) := by
  let asks := asks_fack xq blast_size extra_fack num_sent
  have hqueue : (xmitq.xmit_elt blast_size extra_fack num_sent xq xqe.addr).queue =
      update_at xq.queue xqe.addr (transmitted xq asks) := rfl
  -- a packet that is not one of fragments asks for a fack, and its flag is not set
  have hasks : (!(transmitted xq asks xqe).no_fack) = asks := by
    dsimp only [transmitted]
    cases hfrag : xq.frag with
    | true => simp
    | false =>
      have hflag := h.no_fack hfrag xqe hmem
      simp [hflag, asks, asks_fack, hfrag]
  have hmem_old : ∀ old ∈ update_at xq.queue xqe.addr (transmitted xq asks),
      ∃ same ∈ xq.queue, old.last_frag = same.last_frag ∧ (xq.frag = false → old.no_fack = same.no_fack) := by
    intro old hold
    obtain ⟨same, hsame, rfl⟩ := List.mem_map.mp hold
    refine ⟨same, hsame, ?_, fun hfrag => ?_⟩
    · split_ifs <;> rfl
    · split_ifs
      · simp [transmitted, hfrag]
      · rfl
  refine
    { cwindow_size := ?_
      freqs_out := ?_
      last_frag := ?_
      no_fack := ?_ }
  · have hold : cwindow_size.toNat = xq.queue.countP (·.in_cwindow) := h.cwindow_size
    rw [hqueue, countP_update_at hnodup hmem hout]
    change (cwindow_size + 1).toNat = xq.queue.countP (·.in_cwindow) + 1
    bv_omega
  · have hold : xq.freqs_out.toNat = xq.queue.countP fun xqe => xqe.in_cwindow && !xqe.no_fack := h.freqs_out
    rw [hqueue, countP_update_at hnodup hmem (by simp [hout])]
    have hnew : ((transmitted xq asks xqe).in_cwindow && !(transmitted xq asks xqe).no_fack) = asks := by
      rw [hasks]
      rfl
    rw [hnew, ← hold]
    change (if asks = true then xq.freqs_out + 1 else xq.freqs_out).toNat = _
    by_cases hask : asks = true
    · have hroom := hfreqs hask
      rw [if_pos hask, if_pos hask]
      bv_omega
    · rw [if_neg hask, if_neg hask]
      rfl
  · intro old hold
    obtain ⟨same, hsame, heq, -⟩ := hmem_old old hold
    rw [heq]
    exact h.last_frag same hsame
  · intro hfrag old hold
    obtain ⟨same, hsame, -, heq⟩ := hmem_old old hold
    rw [heq hfrag]
    exact h.no_fack hfrag same hsame

theorem mem_xmit_elt {old : rpc_dg_xmitq_elt_t} {blast_size extra_fack num_sent : ℕ} {addr : Addr}
    (hmem : old ∈ (xmitq.xmit_elt blast_size extra_fack num_sent xq addr).queue) :
    old.addr = addr ∨ old ∈ xq.queue := by
  obtain ⟨same, hsame, rfl⟩ := List.mem_map.mp hmem
  split_ifs with haddr
  · exact .inl haddr
  · exact .inr hsame

theorem Shaped.xmit_loop_counts (blast_size extra_fack n : ℕ) {rexmitq : List Addr} {cwindow_size : BitVec 16}
    (hshape : Shaped xq sent unsent) (hn : n ≤ blast_size) (hrexmitq : ∀ addr ∈ rexmitq, addr ∈ sent.map (·.addr))
    (hnodup : rexmitq.Nodup) (hout : ∀ xqe ∈ xq.queue, xqe.addr ∈ rexmitq → xqe.in_cwindow = false)
    (hunsent : ∀ xqe ∈ unsent, xqe.in_cwindow = false) (hcounts : CountsTo xq cwindow_size)
    (hcwindow : cwindow_size.toNat + min n (rexmitq.length + unsent.length) < 2 ^ 16)
    (hfreqs : xq.freqs_out.toNat + (List.range' (blast_size + 1 - n) (min n (rexmitq.length + unsent.length))).countP
      (asks_fack xq blast_size extra_fack) < 2 ^ 8) :
    ∃ xq' sent', xmitq.xmit_loop blast_size extra_fack n rexmitq xq =
        some (xq', n - min n (rexmitq.length + unsent.length)) ∧
      Shaped xq' sent' (unsent.drop (n - rexmitq.length)) ∧
      CountsTo xq' (cwindow_size + BitVec.ofNat 16 (min n (rexmitq.length + unsent.length))) ∧
      xq'.next_fragnum = xq.next_fragnum ∧ xq'.cwindow_size = xq.cwindow_size ∧ xq'.frag = xq.frag := by
  induction n generalizing xq sent unsent rexmitq cwindow_size with
  | zero =>
    refine ⟨xq, sent, ?_, ?_, ?_, rfl, rfl, rfl⟩
    · rw [Nat.zero_min]
      rfl
    · simpa using hshape
    · simpa using hcounts
  | succ n ih =>
    have hstart : blast_size + 1 - (n + 1) = blast_size - n := by omega
    have hnext : blast_size - n + 1 = blast_size + 1 - n := by omega
    have hsum : ∀ k : ℕ, cwindow_size + 1 + BitVec.ofNat 16 k = cwindow_size + BitVec.ofNat 16 (k + 1) := by
      intro k
      bv_omega
    cases rexmitq with
    | cons addr rexmitq =>
      have hmin : min (n + 1) ((addr :: rexmitq).length + unsent.length) = min n (rexmitq.length + unsent.length) + 1 := by
        rw [List.length_cons]
        omega
      rw [hmin, hstart, List.range'_succ, List.countP_cons] at hfreqs
      rw [hmin] at hcwindow ⊢
      have hsent := hrexmitq addr List.mem_cons_self
      obtain ⟨xqe, hxqe, rfl⟩ := List.mem_map.mp hsent
      obtain ⟨hnew, hnodup'⟩ := List.nodup_cons.mp hnodup
      have hmem : xqe ∈ xq.queue := by
        rw [hshape.queue]
        exact List.mem_append_left _ hxqe
      have haddrs : (xq.queue.map (·.addr)).Nodup := by rw [hshape.queue]; exact hshape.addrs
      obtain ⟨sent', hsame, hshape'⟩ := hshape.resend hsent blast_size extra_fack (blast_size - n)
      have hcounts' := hcounts.xmit_elt blast_size extra_fack (blast_size - n) haddrs hmem (hout xqe hmem List.mem_cons_self)
        (by omega) (by intro hask; rw [if_pos hask] at hfreqs; omega)
      obtain ⟨xq', sent'', hloop, hresult, hcounted, hnext', hcwindow', hfrag'⟩ :=
        ih hshape' (by omega)
        (by
          intro addr hmem
          rw [hsame]
          exact hrexmitq addr (List.mem_cons_of_mem _ hmem))
        hnodup'
        (by
          intro old hold haddr
          obtain hthis | hthere := mem_xmit_elt hold
          · exact absurd (hthis ▸ haddr) hnew
          · exact hout old hthere (List.mem_cons_of_mem _ haddr))
        hunsent hcounts'
        (by bv_omega)
        (by
          rw [← hnext]
          change (if asks_fack xq blast_size extra_fack (blast_size - n) = true then xq.freqs_out + 1
            else xq.freqs_out).toNat + List.countP (asks_fack xq blast_size extra_fack) _ < 2 ^ 8
          split_ifs at hfreqs ⊢
          · bv_omega
          · omega)
      refine ⟨xq', sent'', ?_, ?_, ?_, hnext', hcwindow', hfrag'⟩
      · have hhas : xq.has xqe.addr := List.mem_map_of_mem hmem
        rw [xmitq.xmit_loop, if_pos hhas, hloop]
        congr 2
        omega
      · rw [List.length_cons, Nat.add_sub_add_right]
        exact hresult
      · rw [← hsum]
        exact hcounted
    | nil =>
      cases unsent with
      | nil =>
        have hfirst : xq.first_unsent = none := hshape.first_unsent
        refine ⟨xq, sent, ?_, ?_, ?_, rfl, rfl, rfl⟩
        · rw [xmitq.xmit_loop, hfirst]
          rfl
        · simpa using hshape
        · simpa using hcounts
      | cons xqe unsent =>
        have hmin : min (n + 1) (([] : List Addr).length + (xqe :: unsent).length) =
            min n (([] : List Addr).length + unsent.length) + 1 := by
          rw [List.length_cons, List.length_nil]
          omega
        rw [hmin, hstart, List.range'_succ, List.countP_cons] at hfreqs
        rw [hmin] at hcwindow ⊢
        have hfirst : xq.first_unsent = some xqe.addr := hshape.first_unsent
        have hmem : xqe ∈ xq.queue := by
          rw [hshape.queue]
          simp
        have haddrs : (xq.queue.map (·.addr)).Nodup := by rw [hshape.queue]; exact hshape.addrs
        obtain ⟨sent', hsame, hshape'⟩ := hshape.send blast_size extra_fack (blast_size - n)
        have hcounts' := hcounts.xmit_elt blast_size extra_fack (blast_size - n) haddrs hmem (hunsent xqe List.mem_cons_self)
          (by omega) (by intro hask; rw [if_pos hask] at hfreqs; omega)
        obtain ⟨xq', sent'', hloop, hresult, hcounted, hnext', hcwindow', hfrag'⟩ :=
          ih hshape' (by omega) (by simp) List.nodup_nil (by simp)
          (fun old hold => hunsent old (List.mem_cons_of_mem _ hold)) (Tallied.congr hcounts' rfl rfl rfl)
          (by bv_omega)
          (by
            rw [← hnext]
            change (if asks_fack xq blast_size extra_fack (blast_size - n) = true then xq.freqs_out + 1
              else xq.freqs_out).toNat + List.countP (asks_fack xq blast_size extra_fack) _ < 2 ^ 8
            split_ifs at hfreqs ⊢
            · bv_omega
            · omega)
        refine ⟨xq', sent'', ?_, ?_, ?_, hnext', hcwindow', hfrag'⟩
        · have hhas : xq.has xqe.addr := List.mem_map_of_mem hmem
          rw [xmitq.xmit_loop, hfirst]
          dsimp only
          rw [if_pos hhas, hloop]
          congr 2
          omega
        · exact hresult
        · rw [← hsum]
          exact hcounted

end Transmission

section Operations

variable {xq : rpc_dg_xmitq_t} {sent unsent : List rpc_dg_xmitq_elt_t}

theorem Shaped.not_yet_sent (hshape : Shaped xq sent unsent) : xmitq.not_yet_sent xq = unsent := hshape.takeWhile_dropWhile.2

theorem Shaped.queued_to_send (hshape : Shaped xq sent unsent) :
    xmitq.queued_to_send xq = xq.rexmitq.length + unsent.length := by
  rw [xmitq.queued_to_send, hshape.not_yet_sent]

def RoomFor (xq : rpc_dg_xmitq_t) : Prop :=
  xq.cwindow_size.toNat + num_sent xq < 2 ^ 16 ∧ xq.freqs_out.toNat + num_requests xq < 2 ^ 8

instance (xq : rpc_dg_xmitq_t) : Decidable (RoomFor xq) := by
  unfold RoomFor
  infer_instance

theorem Accounted.call_xmit (hshape : Shaped xq sent unsent) (h : Accounted xq) (hroom : RoomFor xq) :
    ∃ xq', rpc__dg_call_xmit xq = some xq' ∧ Exact xq' := by
  have hunsent : ∀ xqe ∈ unsent, xqe.in_cwindow = false :=
    fun xqe hmem => h.unsent_out xqe (by rw [hshape.not_yet_sent]; exact hmem)
  have hnumbered := h.numbered
  rw [hshape.not_yet_sent] at hnumbered
  obtain ⟨hcwindow, hfreqs⟩ := hroom
  rw [num_requests, num_sent, hshape.queued_to_send] at hfreqs
  rw [num_sent, hshape.queued_to_send] at hcwindow
  obtain ⟨xq', sent', hloop, hshape', hcounts, hnext, hcwindow', hfrag⟩ :=
    hshape.xmit_loop_counts xq.blast_size.toNat (extra_fack xq) xq.blast_size.toNat
      le_rfl hshape.rexmitq h.rexmit_nodup h.rexmit_out hunsent
      (h.tallied.congr rfl rfl rfl) hcwindow
      (by rw [Nat.add_sub_cancel_left]; exact hfreqs)
  have hcount : xq.blast_size.toNat - (xq.blast_size.toNat - min xq.blast_size.toNat (xq.rexmitq.length + unsent.length)) =
      min xq.blast_size.toNat (xq.rexmitq.length + unsent.length) := by omega
  have hended : Shaped (end_blast xq' (min xq.blast_size.toNat (xq.rexmitq.length + unsent.length))) sent'
      (unsent.drop (xq.blast_size.toNat - xq.rexmitq.length)) :=
    hshape'.congr rfl rfl rfl (by simp [end_blast])
  refine ⟨end_blast xq' (min xq.blast_size.toNat (xq.rexmitq.length + unsent.length)), ?_, ?_⟩
  · simp only [rpc__dg_call_xmit, hloop, Option.map_some, hcount]
  refine
    { tallied := Tallied.congr hcounts (by rw [← hcwindow']; rfl) rfl rfl
      rexmit_nodup := List.nodup_nil
      rexmit_out := by simp [end_blast]
      unsent_out := ?_
      released := Nat.zero_le _
      numbered := ?_ }
  · rw [hended.not_yet_sent]
    exact fun xqe hxqe => hunsent xqe (List.mem_of_mem_drop hxqe)
  · rw [hended.not_yet_sent]
    have hdrop := hnumbered.drop (xq.blast_size.toNat - xq.rexmitq.length)
    rw [← hnext] at hdrop
    exact hdrop

theorem Accounted.append {addr : Addr} {xq' : rpc_dg_xmitq_t} (hshape : Shaped xq sent unsent) (h : Accounted xq)
    (hfresh : addr ∉ xq.queue.map (·.addr)) (happend : rpc__dg_xmitq_append_pp xq (some addr) = some xq') :
    Accounted xq' ∧ xq'.queue = xq.queue ++ [filled addr xq.next_fragnum] ∧ xq'.freqs_out = xq.freqs_out ∧
      xq'.blast_size = xq.blast_size ∧ xmitq.queued_to_send xq' = xmitq.queued_to_send xq + 1 := by
  obtain ⟨xq'', happend', hshape'⟩ := hshape.append hfresh
  obtain rfl : xq'' = xq' := Option.some.inj (happend'.symm.trans happend)
  have hsame : xq''.queue = xq.queue ++ [filled addr xq.next_fragnum] ∧ xq''.rexmitq = xq.rexmitq ∧
      xq''.next_fragnum = xq.next_fragnum + 1 ∧ xq''.cwindow_size = xq.cwindow_size ∧ xq''.freqs_out = xq.freqs_out ∧
      xq''.blast_size = xq.blast_size ∧ (xq''.frag = false → xq.frag = false) := by
    unfold rpc__dg_xmitq_append_pp at happend
    dsimp only at happend
    have hfrag : (xq.frag || !xq.push) = false → xq.frag = false := by
      intro hor
      exact (Bool.or_eq_false_iff.mp hor).1
    split_ifs at happend
    all_goals
      obtain rfl := Option.some.inj happend
      exact ⟨rfl, rfl, rfl, rfl, rfl, rfl, hfrag⟩
  obtain ⟨hqueue, hrexmitq, hnext, hcwindow, hfreqs, hblast, hfrag⟩ := hsame
  have hold := hshape.not_yet_sent
  have hqueued : xmitq.queued_to_send xq'' = xmitq.queued_to_send xq + 1 := by
    rw [hshape.queued_to_send, hshape'.queued_to_send, hrexmitq, List.length_append, List.length_singleton, Nat.add_assoc]
  refine ⟨?_, hqueue, hfreqs, hblast, hqueued⟩
  refine
    { tallied :=
        { cwindow_size := by rw [hqueue, List.countP_append, hcwindow, h.tallied.cwindow_size]; rfl
          freqs_out := by rw [hqueue, List.countP_append, hfreqs, h.tallied.freqs_out]; rfl
          last_frag := ?_
          no_fack := ?_ }
      rexmit_nodup := by rw [hrexmitq]; exact h.rexmit_nodup
      rexmit_out := ?_
      unsent_out := ?_
      numbered := by rw [hshape'.not_yet_sent, hnext]; rw [← hold]; exact h.numbered.append addr }
  · rw [hqueue]
    intro xqe hxqe
    obtain hbefore | hnew := List.mem_append.mp hxqe
    · exact h.tallied.last_frag xqe hbefore
    · obtain rfl : xqe = filled addr xq.next_fragnum := by simpa using hnew
      rfl
  · rw [hqueue]
    intro hfrag' xqe hxqe
    obtain hbefore | hnew := List.mem_append.mp hxqe
    · exact h.tallied.no_fack (hfrag hfrag') xqe hbefore
    · obtain rfl : xqe = filled addr xq.next_fragnum := by simpa using hnew
      rfl
  · rw [hqueue, hrexmitq]
    intro xqe hxqe haddr
    obtain hbefore | hnew := List.mem_append.mp hxqe
    · exact h.rexmit_out xqe hbefore haddr
    · obtain rfl : xqe = filled addr xq.next_fragnum := by simpa using hnew
      rfl
  · rw [hshape'.not_yet_sent]
    intro xqe hxqe
    obtain hbefore | hnew := List.mem_append.mp hxqe
    · exact h.unsent_out xqe (hold ▸ hbefore)
    · obtain rfl : xqe = filled addr xq.next_fragnum := by simpa using hnew
      rfl

theorem Accounted.with_blast (h : Accounted xq) (blast_size : BitVec 8) (push : Bool) :
    Accounted { xq with blast_size, push } where
  tallied := h.tallied.congr rfl rfl rfl
  rexmit_nodup := h.rexmit_nodup
  rexmit_out := h.rexmit_out
  unsent_out := h.unsent_out
  numbered := h.numbered

theorem Exact.timer (hshape : Shaped xq sent unsent) (h : Exact xq) : Exact (rpc__dg_call_xmitq_timer xq) := by
  obtain ⟨sent', unsent', hshape', -, hsame⟩ := hshape.timer
  cases sent with
  | nil =>
    cases unsent with
    | nil =>
      have hqueue : xq.queue = [] := hshape.queue
      rw [rpc__dg_call_xmitq_timer, hqueue]
      exact h
    | cons xqe rest =>
      have hqueue : xq.queue = xqe :: rest := hshape.queue
      have hfirst : xq.first_unsent = some xqe.addr := hshape.first_unsent
      have hout : xqe.in_cwindow = false := h.unsent_out xqe (by rw [hshape.not_yet_sent]; exact List.mem_cons_self)
      have hleave : leave_window xqe = xqe := by rw [leave_window, ← hout]
      have huncount : uncount true xq xqe = xq := by rw [uncount, if_neg (by simp [hout])]
      have htimer : rpc__dg_call_xmitq_timer xq = { xq with blast_size := 1 } := by
        unfold rpc__dg_call_xmitq_timer
        rw [hqueue]
        dsimp only
        rw [hleave, huncount, if_neg (not_not.mpr hfirst), ← hqueue]
      have hqueued := hshape.queued_to_send
      rw [htimer]
      refine ⟨h.toAccounted.with_blast 1 xq.push, ?_⟩
      change 1 ≤ xmitq.queued_to_send xq
      rw [hqueued, List.length_cons]
      omega
  | cons xqe sent =>
    have hqueue : xq.queue = xqe :: (sent ++ unsent) := hshape.queue
    have hunsent := hsame (List.cons_ne_nil _ _)
    rw [hunsent] at hshape'
    have hleft := hshape'.not_yet_sent
    have hqueued := hshape'.queued_to_send
    have htimer : rpc__dg_call_xmitq_timer xq =
        { uncount true xq xqe with
          queue := leave_window xqe :: (sent ++ unsent)
          rexmitq := [xqe.addr]
          blast_size := 1 } := by
      unfold rpc__dg_call_xmitq_timer
      rw [hqueue]
      dsimp only
      rw [if_pos hshape.first_unsent_ne]
    have htallied : Tallied (uncount true xq xqe) (leave_window xqe :: (sent ++ unsent)) :=
      Tallied.leave [] true (hqueue ▸ h.tallied)
    rw [htimer] at hleft hqueued ⊢
    refine
      { tallied := htallied.congr rfl rfl rfl
        rexmit_nodup := List.nodup_singleton _
        rexmit_out := ?_
        unsent_out := ?_
        released := ?_
        numbered := ?_ }
    · intro old hmem haddr
      have hnodup := hshape.addrs
      rw [List.cons_append, List.map_cons, List.nodup_cons] at hnodup
      obtain rfl | hrest := List.mem_cons.mp hmem
      · rfl
      · have heq : old.addr = xqe.addr := by simpa using haddr
        exact absurd (heq ▸ List.mem_map_of_mem hrest) hnodup.1
    · rw [hleft]
      exact fun old hmem => h.unsent_out old (by rw [hshape.not_yet_sent]; exact hmem)
    · rw [hleft]
      have hnumbered := h.numbered
      rw [hshape.not_yet_sent, ← uncount_next_fragnum true xqe] at hnumbered
      exact hnumbered
    · rw [hqueued]
      exact Nat.le_add_right 1 _

theorem Exact.restart (hshape : Shaped xq sent unsent) (h : Exact xq) : Exact (rpc__dg_xmitq_restart xq) := by
  obtain ⟨sent', hshape', -⟩ := hshape.restart
  obtain ⟨htake, hdrop⟩ := hshape.takeWhile_dropWhile
  have hleft := hshape'.not_yet_sent
  have hqueued := hshape'.queued_to_send
  by_cases hblast : xq.blast_size > 0
  · rw [rpc__dg_xmitq_restart, if_pos hblast]
    exact h
  · have hrestart : rpc__dg_xmitq_restart xq =
        { sent.foldl (uncount true) xq with
          queue := sent.map leave_window ++ unsent
          rexmitq := if sent = [] then xq.rexmitq else sent.map (·.addr)
          blast_size := BitVec.ofNat 8 (min (if sent = [] ∧ xq.first_unsent ≠ none then 1 else sent.length)
            RPC_C_DG_INITIAL_BLAST_SIZE) } := by
      unfold rpc__dg_xmitq_restart
      rw [if_neg hblast, htake, hdrop]
    obtain ⟨-, -, -, hnext, -⟩ := foldl_uncount_spec xq true sent
    have htallied : Tallied (sent.foldl (uncount true) xq) (sent.map leave_window ++ unsent) := by
      have hbefore := h.tallied
      rw [hshape.queue] at hbefore
      exact Tallied.foldl_leave true [] hbefore
    have hrexmitq : sent = [] → xq.rexmitq = [] := by
      rintro rfl
      refine List.eq_nil_iff_forall_not_mem.mpr fun addr haddr => ?_
      simpa using hshape.rexmitq addr haddr
    rw [hrestart] at hleft hqueued ⊢
    refine
      { tallied := htallied.congr rfl rfl rfl
        rexmit_nodup := ?_
        rexmit_out := ?_
        unsent_out := ?_
        released := ?_
        numbered := ?_ }
    · dsimp only
      split_ifs
      · exact h.rexmit_nodup
      · have hnodup := hshape.addrs
        rw [List.map_append, List.nodup_append] at hnodup
        exact hnodup.1
    · intro old hmem _
      obtain hsent | hunsent := List.mem_append.mp hmem
      · obtain ⟨was, -, rfl⟩ := List.mem_map.mp hsent
        rfl
      · exact h.unsent_out old (by rw [hshape.not_yet_sent]; exact hunsent)
    · rw [hleft]
      exact fun old hmem => h.unsent_out old (by rw [hshape.not_yet_sent]; exact hmem)
    · rw [hleft]
      have hnumbered := h.numbered
      rw [hshape.not_yet_sent, ← hnext] at hnumbered
      exact hnumbered
    · rw [hqueued]
      dsimp only
      rw [BitVec.toNat_ofNat]
      refine (Nat.mod_le _ _).trans ((min_le_left _ _).trans ?_)
      by_cases hempty : sent = []
      · rw [if_pos hempty]
        split_ifs with hsome
        · obtain ⟨first, hfirst⟩ := Option.ne_none_iff_exists'.mp hsome.2
          have hhead := hshape.first_unsent
          rw [hfirst] at hhead
          cases unsent with
          | nil => simp at hhead
          | cons xqe rest =>
            rw [List.length_cons]
            omega
        · rw [hempty]
          exact Nat.zero_le _
      · rw [if_neg hempty, if_neg (fun hboth => hempty hboth.1), List.length_map]
        exact Nat.le_add_right _ _

theorem Exact.fack {inside : Prop} {len : ℕ} {p : Processed} {sent' : List rpc_dg_xmitq_elt_t}
    (hshape : Shaped xq sent unsent) (h : Exact xq) (hp : Facked inside len xq p sent' unsent)
    (hblast : p.xq.blast_size.toNat ≤ p.xq.rexmitq.length + unsent.length) : Exact p.xq := by
  have hunsent : ∀ xqe ∈ unsent, xqe.in_cwindow = false :=
    fun xqe hmem => h.unsent_out xqe (by rw [hshape.not_yet_sent]; exact hmem)
  refine
    { tallied := by rw [hp.shape.queue]; exact hp.counts h.tallied
      rexmit_nodup := hp.rexmit_nodup
      rexmit_out := ?_
      unsent_out := by rw [hp.shape.not_yet_sent]; exact hunsent
      released := by rw [hp.shape.queued_to_send]; exact hblast
      numbered := ?_ }
  · rw [hp.shape.queue]
    intro xqe hmem haddr
    obtain hold | hnew := List.mem_append.mp hmem
    · exact hp.rexmit_out xqe hold haddr
    · exact hunsent xqe hnew
  · rw [hp.shape.not_yet_sent, hp.numbers.1, ← hshape.not_yet_sent]
    exact h.numbered

theorem Exact.emptied (hqueue : xq.queue = []) (hrexmitq : xq.rexmitq = []) (hcwindow : xq.cwindow_size = 0)
    (hfreqs : xq.freqs_out = 0) (hblast : xq.blast_size = 0) : Exact xq := by
  have hleft : xmitq.not_yet_sent xq = [] := by rw [xmitq.not_yet_sent, hqueue]; rfl
  refine
    { tallied :=
        { cwindow_size := by rw [hcwindow, hqueue]; rfl
          freqs_out := by rw [hfreqs, hqueue]; rfl
          last_frag := by simp [hqueue]
          no_fack := by simp [hqueue] }
      rexmit_nodup := by rw [hrexmitq]; exact List.nodup_nil
      rexmit_out := by simp [hqueue]
      unsent_out := by simp [hleft]
      released := by rw [hblast]; exact Nat.zero_le _
      numbered := by rw [hleft]; trivial }

end Operations

end dce.rpc.xmitq
