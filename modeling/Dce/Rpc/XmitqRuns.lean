import Dce.Rpc.XmitqSafe

open lib

namespace dce.rpc.xmitq

/-- A sender whose queue is well formed: no pointer to no element was followed, the fragments that facks freed had been sent, and
each fragment that was appended is in the queue or was freed, once. The queue is one of fragments that were sent and, from the
first unsent one on, of fragments that were not; the tail is its last element and the retransmission queue is of elements that
were sent. -/
structure WellFormed (t : Sender) (sent unsent : List rpc_dg_xmitq_elt_t) : Prop where
  not_crashed : t.crashed = false
  shape : Shaped t.xq sent unsent
  freed_sent : ∀ xqe ∈ t.freed, xqe.was_sent = true
  kept : ((sent ++ unsent).map (·.addr) ++ t.freed.map (·.addr)).Perm t.appended
  fresh : ∀ addr ∈ t.appended, addr < t.next_addr

section Steps

variable {order : ByteOrder} {t : Sender} {sent unsent : List rpc_dg_xmitq_elt_t}

section

variable (h : WellFormed t sent unsent)

include h

theorem WellFormed.next_fresh : t.next_addr ∉ t.xq.queue.map (·.addr) := by
  rw [h.shape.queue]
  intro hmem
  exact absurd (h.fresh t.next_addr (h.kept.subset (List.mem_append_left _ hmem))) (lt_irrefl _)

theorem WellFormed.with_xq {xq : rpc_dg_xmitq_t} {sent' unsent' : List rpc_dg_xmitq_elt_t}
    (hshape : Shaped xq sent' unsent') (hsame : (sent' ++ unsent').map (·.addr) = (sent ++ unsent).map (·.addr)) :
    WellFormed { t with xq } sent' unsent' where
  not_crashed := h.not_crashed
  shape := hshape
  freed_sent := h.freed_sent
  kept := by rw [hsame]; exact h.kept
  fresh := h.fresh

theorem WellFormed.append {xq : rpc_dg_xmitq_t} (hshape : Shaped xq sent unsent) (hqueue : xq.queue = t.xq.queue) :
    ∃ xq' unsent', rpc__dg_xmitq_append_pp xq (some t.next_addr) = some xq' ∧
      WellFormed (t.with_appended (some xq')) sent unsent' := by
  obtain ⟨xq', happend, hshape'⟩ := hshape.append (by rw [hqueue]; exact h.next_fresh)
  refine ⟨xq', unsent ++ [filled t.next_addr xq.next_fragnum], happend,
    { not_crashed := h.not_crashed
      shape := hshape'
      freed_sent := h.freed_sent
      kept := ?_
      fresh := ?_ }⟩
  · have hkept := h.kept
    refine List.perm_iff_count.mpr fun addr => ?_
    have hcount := hkept.count_eq addr
    simp only [Sender.with_appended, Sender.with_xq, filled, List.map_append, List.map_cons, List.map_nil,
      List.count_append] at hcount ⊢
    omega
  · intro addr haddr
    dsimp only [Sender.with_appended, Sender.with_xq] at haddr ⊢
    obtain hold | hnew := List.mem_append.mp haddr
    · exact Nat.lt_succ_of_lt (h.fresh addr hold)
    · obtain rfl : addr = t.next_addr := by simpa using hnew
      exact Nat.lt_succ_self _

theorem WellFormed.fack {around : Around} {pkt : rpc_dg_fackpkt_t} (hnames : NamesSent order pkt t.xq) :
    ∃ p sent', rpc__dg_fack_common order around pkt t.xq = some p ∧
      Facked (CoversBody order pkt t.xq) pkt.len.toNat t.xq p sent' unsent ∧
      (CountsUnsent t.xq unsent → p.xq.blast_size.toNat ≤ p.xq.rexmitq.length + unsent.length) ∧
      WellFormed (t.with_fack pkt.len.toNat (some p)) sent' unsent := by
  obtain ⟨p, sent', hfack, hp, hblast⟩ := h.shape.fack_common hnames
  refine ⟨p, sent', hfack, hp, hblast,
    { not_crashed := h.not_crashed
      shape := hp.shape
      freed_sent := ?_
      kept := ?_
      fresh := h.fresh }⟩
  · intro xqe hxqe
    obtain hold | hnew := List.mem_append.mp hxqe
    · exact h.freed_sent xqe hold
    · exact hp.freed_sent xqe hnew
  · refine List.perm_iff_count.mpr fun addr => ?_
    have hbefore := h.kept.count_eq addr
    have hafter := hp.kept.count_eq addr
    rw [h.shape.queue] at hafter
    simp only [Sender.with_fack, List.map_append, List.count_append] at hbefore hafter ⊢
    omega

theorem WellFormed.emptied {xq : rpc_dg_xmitq_t} (hqueue : xq.queue = [])
    (hfirst : xq.first_unsent = none) (htail : xq.tail = none) (hrexmitq : xq.rexmitq = []) :
    WellFormed { t with xq, appended := [], freed := [] } [] [] where
  not_crashed := h.not_crashed
  shape :=
    { queue := hqueue
      addrs := List.nodup_nil
      sent_sent := by simp
      unsent_not := by simp
      first_unsent := hfirst
      tail := htail
      rexmitq := by simp [hrexmitq] }
  freed_sent := by simp
  kept := List.Perm.refl _
  fresh := by simp

end

/-- The fack of an event names no unsent fragment. -/
def names_sent (order : ByteOrder) (t : Sender) : XmitqEvent → Prop
  | .fack _ pkt => NamesSent order pkt t.xq
  | _ => True

theorem WellFormed.step {e : XmitqEvent} (h : WellFormed t sent unsent) (hnames : names_sent order t e) :
    ∃ sent' unsent', WellFormed (xmitq_step order t e) sent' unsent' := by
  cases e with
  | append n_resvs =>
    obtain ⟨xq', unsent', happend, h'⟩ := h.append h.shape rfl
    rw [xmitq_step, happend, Option.bind_some]
    cases n_resvs with
    | none => exact ⟨sent, unsent', h'⟩
    | some n =>
      obtain ⟨xq'', sent'', unsent'', hstart, hshape, hsame⟩ := h'.shape.start_window n
      have hstart' : start_window xq' n = some xq'' := hstart
      rw [Option.elim_some, hstart']
      exact ⟨sent'', unsent'', h'.with_xq hshape hsame⟩
  | push =>
    obtain ⟨xq', unsent', happend, h'⟩ := h.append (h.shape.with_blast
      (if t.xq.queue = [] then 1 else if t.xq.freqs_out = 0 then 2 else t.xq.blast_size) true) rfl
    rw [xmitq_step, rpc__dg_call_xmitq_push, happend]
    exact ⟨sent, unsent', h'⟩
  | xmit =>
    rw [xmitq_step]
    split_ifs
    · obtain ⟨xq, sent', unsent', hxq, hshape, hsame⟩ := h.shape.call_xmit
      refine ⟨sent', unsent', ?_⟩
      rw [hxq]
      exact h.with_xq hshape hsame
    · exact ⟨sent, unsent, h⟩
  | timer =>
    obtain ⟨sent', unsent', hshape, hsame, -⟩ := h.shape.timer
    exact ⟨sent', unsent', h.with_xq hshape hsame⟩
  | restart =>
    obtain ⟨sent', hshape, hsame⟩ := h.shape.restart
    exact ⟨sent', unsent, h.with_xq hshape (by rw [List.map_append, hsame, ← List.map_append])⟩
  | fack around pkt =>
    obtain ⟨p, sent', hfack, -, -, h'⟩ := h.fack hnames
    rw [xmitq_step, hfack]
    exact ⟨sent', unsent, h'⟩
  | free => exact ⟨[], [], h.emptied rfl rfl rfl rfl⟩
  | reinit => exact ⟨[], [], h.emptied rfl rfl rfl rfl⟩

theorem WellFormed.init (order : ByteOrder) (hinit : (xmitqSystem order).init t) : WellFormed t [] [] := by
  obtain ⟨next_fragnum, max_snd_tsdu, max_frag_size, snd_frag_size, -, rfl⟩ := hinit
  exact
    { not_crashed := rfl
      shape :=
        { queue := rfl
          addrs := List.nodup_nil
          sent_sent := by simp
          unsent_not := by simp
          first_unsent := rfl
          tail := rfl
          rexmitq := by simp [rpc__dg_xmitq_init] }
      freed_sent := by simp
      kept := List.Perm.refl _
      fresh := by simp }

theorem WellFormed.step_eq {t' : Sender} {e : XmitqEvent} (h : WellFormed t sent unsent)
    (hstep : (xmitqSystem order).step t e = some t') : xmitq_step order t e = t' := by
  have hgo : (xmitqSystem order).step t e = some (xmitq_step order t e) := by simp [xmitqSystem, h.not_crashed]
  exact Option.some.inj (hgo.symm.trans hstep)

end Steps

section Runs

variable {order : ByteOrder} {t : Sender} {sent unsent : List rpc_dg_xmitq_elt_t}

/-- A fack names no fragment that was not sent yet among its selective acknowledgements, and its length covers its body. -/
def FackFits (order : ByteOrder) (t : Sender) : XmitqEvent → Prop
  | .fack _ pkt => NamesSent order pkt t.xq ∧ CoversBody order pkt t.xq
  | _ => True

instance fackFits_decidable (order : ByteOrder) : ∀ t e, Decidable (FackFits order t e)
  | _, .fack _ _ => inferInstanceAs (Decidable (_ ∧ _))
  | _, .append _ => inferInstanceAs (Decidable True)
  | _, .push => inferInstanceAs (Decidable True)
  | _, .xmit => inferInstanceAs (Decidable True)
  | _, .timer => inferInstanceAs (Decidable True)
  | _, .restart => inferInstanceAs (Decidable True)
  | _, .free => inferInstanceAs (Decidable True)
  | _, .reinit => inferInstanceAs (Decidable True)

theorem FackFits.names_sent {e : XmitqEvent} (hfits : FackFits order t e) : xmitq.names_sent order t e := by
  cases e with
  | fack around pkt => exact hfits.1
  | _ => trivial

theorem WellFormed.not_overread {e : XmitqEvent} (h : WellFormed t sent unsent) (hfits : FackFits order t e)
    (hoverread : t.overread = false) : (xmitq_step order t e).overread = false := by
  have hkept : ∀ xq, (t.with_xq xq).overread = false := by
    intro xq
    cases xq <;> exact hoverread
  cases e with
  | fack around pkt =>
    obtain ⟨p, sent', hfack, hp, -, -⟩ := h.fack hfits.1
    have hreads : p.reads.all (Span.within pkt.len.toNat) = true :=
      List.all_eq_true.mpr fun span hspan => decide_eq_true (hp.reads hfits.2 span hspan)
    rw [xmitq_step, hfack]
    simp [Sender.with_fack, hoverread, hreads]
  | xmit =>
    rw [xmitq_step]
    split_ifs
    · exact hkept _
    · exact hoverread
  | append n_resvs => exact hkept _
  | push => exact hkept _
  | _ => exact hoverread

/-- In a run whose facks fit, the transmit queue is well formed and no fack is read beyond its length. -/
theorem facks_keep_queue (hreach : ((xmitqSystem order).restrict (FackFits order)).Reachable t) :
    t.overread = false ∧ ∃ sent unsent, WellFormed t sent unsent := by
  refine hreach.invariant (P := fun t => t.overread = false ∧ ∃ sent unsent, WellFormed t sent unsent) ?_ ?_
  · intro t hinit
    refine ⟨?_, [], [], WellFormed.init order hinit⟩
    obtain ⟨next_fragnum, max_snd_tsdu, max_frag_size, snd_frag_size, -, rfl⟩ := hinit
    rfl
  · rintro t e t' ⟨hoverread, sent, unsent, h⟩ hstep
    obtain ⟨hfits, hnext⟩ := System.restrict_step hstep
    obtain rfl := h.step_eq hnext
    exact ⟨h.not_overread hfits hoverread, h.step hfits.names_sent⟩

/-- A fack of a little-endian receiver with a window of 8, for the given fragment and serial number, and with a selective
acknowledgement of the given length whose first mask is given. -/
def selective_fack (fragnum : BitVec 16) (serial_num selack_len mask : Byte) : rpc_dg_fackpkt_t where
  fragnum
  len := 20
  drep := .little
  body i := ([1, 0, 8, 0, 0, 4, 0, 0, 0, 4, 0, 0, serial_num, 0, selack_len, 0, mask][i]?).getD 0

def fresh_sender : Sender where
  xq := rpc__dg_xmitq_init
  next_addr := 1
  appended := []
  freed := []
  crashed := false
  overread := false

theorem fresh_sender_init : (xmitqSystem .little).init fresh_sender :=
  ⟨0, RPC_C_DG_INITIAL_MAX_PKT_SIZE, RPC_C_DG_INITIAL_MAX_PKT_SIZE, RPC_C_DG_INITIAL_MAX_PKT_SIZE, by decide, rfl⟩

def two_of_three_sent : List XmitqEvent := [.append (some 2), .append (some 2), .append (some 2)]

def on_call : Around where
  is_client := true
  has_max_resvs := true
  resv_granted := true

/-- A fack acknowledges the first fragment and, in its mask, the second. -/
theorem facks_keep_queue_selective :
    ∃ t : Sender, (t.appended = [1, 2, 3] ∧ t.freed.map (·.addr) = [1, 2]) ∧ t.overread = false ∧
      ∃ sent unsent, WellFormed t sent unsent := by
  obtain ⟨t, hreach, hfreed⟩ := ((xmitqSystem .little).restrict (FackFits .little)).exists_reachable_of_exec
    (two_of_three_sent ++ [.fack on_call (selective_fack 0 1 1 0b1)])
    (P := fun t => t.appended = [1, 2, 3] ∧ t.freed.map (·.addr) = [1, 2]) fresh_sender_init (by decide +kernel)
  exact ⟨t, of_decide_eq_true hfreed, facks_keep_queue hreach⟩

/-- A mask that has a bit for the third fragment frees it, and the search behind the masks runs off the queue. A second mask that
is not in the body is read when the first one has no bit for a fragment of the queue. -/
theorem fack_follows_bad_pointer :
    (∃ t : Sender, (xmitqSystem .little).Reachable t ∧ ¬ ∃ sent unsent, WellFormed t sent unsent) ∧
      ∃ t : Sender, (xmitqSystem .little).Reachable t ∧ t.crashed = false ∧ t.overread = true := by
  refine ⟨?_, ?_⟩
  · obtain ⟨t, hreach, hcrashed⟩ := (xmitqSystem .little).exists_reachable_of_exec
      (two_of_three_sent ++ [.fack on_call (selective_fack 0 1 1 0b11)]) (P := fun t => t.crashed) fresh_sender_init
      (by decide +kernel)
    refine ⟨t, hreach, ?_⟩
    rintro ⟨sent, unsent, hwell⟩
    rw [hwell.not_crashed] at hcrashed
    exact absurd hcrashed (by decide)
  · obtain ⟨t, hreach, hoverread⟩ := (xmitqSystem .little).exists_reachable_of_exec
      [.append (some 2), .append (some 2), .fack on_call (selective_fack 65496 1 2 0)]
      (P := fun t => t.crashed = false ∧ t.overread = true) fresh_sender_init (by decide +kernel)
    exact ⟨t, hreach, of_decide_eq_true hoverread⟩

end Runs

end dce.rpc.xmitq
