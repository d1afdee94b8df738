import Dce.Rpc.XmitqCounts

open lib

namespace dce.rpc.xmitq

section Conditions

/-- The queue with the blast that starts a window, if one is started. -/
def start_blast (n_resvs : ℕ) (xq : rpc_dg_xmitq_t) : Option rpc_dg_xmitq_t :=
  if xq.freqs_out = 0 then
    if n_resvs < 2 then some { xq with blast_size := 1 }
    else if xq.queue.head?.map (·.addr) ≠ xq.tail then some { xq with blast_size := 2 }
    else none
  else none

/-- The queue with the blast that an event transmits, if it does. -/
def released (t : Sender) : XmitqEvent → Option rpc_dg_xmitq_t
  | .append (some n_resvs) => (rpc__dg_xmitq_append_pp t.xq (some t.next_addr)).bind (start_blast n_resvs)
  | .xmit => if t.xq.blast_size > 0 then some t.xq else none
  | _ => none

/-- A queue without outstanding fack requests that is not empty has a packet to send. -/
def SomeQueued (xq : rpc_dg_xmitq_t) : Prop := xq.freqs_out = 0 → xq.queue ≠ [] → 0 < queued_to_send xq

/-- The next fragment number less the number of the first unsent fragment, as a signed one, is a count of fragments. -/
def SignFits (xq : rpc_dg_xmitq_t) : Prop :=
  ∀ xqe ∈ xq.queue, xq.first_unsent = some xqe.addr →
    if xqe.fragnum.toNat < 2 ^ 15 then xqe.fragnum.toNat ≤ xq.next_fragnum.toNat
    else xq.next_fragnum.toNat < xqe.fragnum.toNat

/-- What the accounts take for granted of an event: two packets are released only where one of them is queued already, the
fragment numbers of a fack are not on both sides of the sign, and a queue is freed when no packet is in the window. -/
def Fits (t : Sender) : XmitqEvent → Prop
  | .append n_resvs => ∀ n ∈ n_resvs, 2 ≤ n → SomeQueued t.xq
  | .push => SomeQueued t.xq
  | .fack _ _ => SignFits t.xq
  | .free => ∀ xqe ∈ t.xq.queue, xqe.in_cwindow = false
  | _ => True

/-- An event that can be accounted for: a fack names no fragment that was not sent, the counts have room for a blast, and the event
is one of those that fit. -/
def Accountable (order : ByteOrder) (t : Sender) (e : XmitqEvent) : Prop :=
  names_sent order t e ∧ (∀ xq ∈ released t e, RoomFor xq) ∧ Fits t e

instance someQueued_decidable (xq : rpc_dg_xmitq_t) : Decidable (SomeQueued xq) := by
  unfold SomeQueued
  infer_instance

instance signFits_decidable (xq : rpc_dg_xmitq_t) : Decidable (SignFits xq) := by
  unfold SignFits
  infer_instance

instance names_sent_decidable (order : ByteOrder) (t : Sender) : ∀ e, Decidable (names_sent order t e)
  | .fack _ pkt => inferInstanceAs (Decidable (NamesSent order pkt t.xq))
  | .append _ => inferInstanceAs (Decidable True)
  | .push => inferInstanceAs (Decidable True)
  | .xmit => inferInstanceAs (Decidable True)
  | .timer => inferInstanceAs (Decidable True)
  | .restart => inferInstanceAs (Decidable True)
  | .free => inferInstanceAs (Decidable True)
  | .reinit => inferInstanceAs (Decidable True)

instance fits_decidable (t : Sender) : ∀ e, Decidable (Fits t e)
  | .append n_resvs => inferInstanceAs (Decidable (∀ n ∈ n_resvs, 2 ≤ n → SomeQueued t.xq))
  | .push => inferInstanceAs (Decidable (SomeQueued t.xq))
  | .fack _ _ => inferInstanceAs (Decidable (SignFits t.xq))
  | .free => inferInstanceAs (Decidable (∀ xqe ∈ t.xq.queue, xqe.in_cwindow = false))
  | .xmit => inferInstanceAs (Decidable True)
  | .timer => inferInstanceAs (Decidable True)
  | .restart => inferInstanceAs (Decidable True)
  | .reinit => inferInstanceAs (Decidable True)

instance accountable_decidable (order : ByteOrder) (t : Sender) (e : XmitqEvent) : Decidable (Accountable order t e) := by
  unfold Accountable
  infer_instance

end Conditions

section Steps

variable {order : ByteOrder} {t : Sender} {sent unsent : List rpc_dg_xmitq_elt_t}

theorem start_window_eq (n_resvs : ℕ) (xq : rpc_dg_xmitq_t) :
    start_window xq n_resvs = (start_blast n_resvs xq).elim (some xq) rpc__dg_call_xmit := by
  unfold start_window start_blast
  split_ifs <;> rfl

theorem released_append {n : ℕ} {xq xq' blast : rpc_dg_xmitq_t} {addr : Addr} (hshape : Shaped xq sent unsent)
    (h : Accounted xq) (hfresh : addr ∉ xq.queue.map (·.addr)) (hqueued : 2 ≤ n → SomeQueued xq)
    (happend : rpc__dg_xmitq_append_pp xq (some addr) = some xq') (hblast : start_blast n xq' = some blast) :
    ∃ blast_size : BitVec 8, blast = { xq' with blast_size } ∧ blast_size.toNat ≤ queued_to_send xq' := by
  obtain ⟨-, hqueue, hfreqs, -, hmore⟩ := h.append hshape hfresh happend
  obtain ⟨xq'', happend', hshape'⟩ := hshape.append hfresh
  obtain rfl : xq'' = xq' := Option.some.inj (happend'.symm.trans happend)
  unfold start_blast at hblast
  split_ifs at hblast with hnone hfew hmany
  · obtain rfl := Option.some.inj hblast
    refine ⟨1, rfl, ?_⟩
    rw [hmore]
    exact Nat.succ_le_succ (Nat.zero_le _)
  · obtain rfl := Option.some.inj hblast
    refine ⟨2, rfl, ?_⟩
    have hne : xq.queue ≠ [] := by
      intro hempty
      refine hmany ?_
      rw [hshape'.tail, ← hshape'.queue, hqueue, hempty]
      rfl
    have hpos := hqueued (Nat.not_lt.mp hfew) (hfreqs ▸ hnone) hne
    rw [hmore]
    change 2 ≤ _
    omega

theorem SignFits.countsUnsent {xq : rpc_dg_xmitq_t} (hshape : Shaped xq sent unsent) (h : Accounted xq) (hsign : SignFits xq) :
    CountsUnsent xq unsent := by
  have hnumbered := h.numbered
  rw [hshape.not_yet_sent] at hnumbered
  refine hnumbered.countsUnsent fun first hfirst => hsign first ?_ ?_
  · rw [hshape.queue]
    exact List.mem_append_right _ (List.mem_of_head? hfirst)
  · rw [hshape.first_unsent, hfirst]
    rfl

theorem WellFormed.accounts {e : XmitqEvent} (hwell : WellFormed t sent unsent) (h : Exact t.xq)
    (hfits : Accountable order t e) : Exact (xmitq_step order t e).xq := by
  obtain ⟨hnames, hroom, hfit⟩ := hfits
  cases e with
  | append n_resvs =>
    obtain ⟨xq', unsent', happend, hwell'⟩ := hwell.append hwell.shape rfl
    obtain ⟨haccounted, -, -, hsame, hmore⟩ := h.toAccounted.append hwell.shape hwell.next_fresh happend
    have hexact : Exact xq' := ⟨haccounted, by rw [hsame, hmore]; exact Nat.le_succ_of_le h.released⟩
    rw [xmitq_step, happend, Option.bind_some]
    cases n_resvs with
    | none => exact hexact
    | some n =>
      rw [Option.elim_some, start_window_eq]
      cases hblast : start_blast n xq' with
      | none => exact hexact
      | some blast =>
        obtain ⟨blast_size, rfl, -⟩ :=
          released_append hwell.shape h.toAccounted hwell.next_fresh (hfit n rfl) happend hblast
        have hreleased : released t (.append (some n)) = some { xq' with blast_size } := by
          rw [released, happend]
          exact hblast
        have hshape' : Shaped xq' sent unsent' := hwell'.shape
        obtain ⟨xq'', hxmit, hexact'⟩ := (haccounted.with_blast blast_size xq'.push).call_xmit
          (hshape'.with_blast blast_size xq'.push) (hroom _ hreleased)
        rw [Option.elim_some, hxmit]
        exact hexact'
  | push =>
    let blast_size := if t.xq.queue = [] then 1 else if t.xq.freqs_out = 0 then 2 else t.xq.blast_size
    obtain ⟨xq', unsent', happend, hwell'⟩ := hwell.append (hwell.shape.with_blast blast_size true) rfl
    obtain ⟨haccounted, -, -, hsame, hmore⟩ := (h.toAccounted.with_blast blast_size true).append
      (hwell.shape.with_blast blast_size true) hwell.next_fresh happend
    rw [xmitq_step, rpc__dg_call_xmitq_push, happend]
    refine ⟨haccounted, ?_⟩
    change xq'.blast_size.toNat ≤ queued_to_send xq'
    rw [hsame, hmore]
    change blast_size.toNat ≤ queued_to_send t.xq + 1
    by_cases hempty : t.xq.queue = []
    · rw [show blast_size = 1 from if_pos hempty]
      exact Nat.succ_le_succ (Nat.zero_le _)
    · by_cases hnone : t.xq.freqs_out = 0
      · rw [show blast_size = 2 from (if_neg hempty).trans (if_pos hnone)]
        exact Nat.succ_le_succ (hfit hnone hempty)
      · rw [show blast_size = t.xq.blast_size from (if_neg hempty).trans (if_neg hnone)]
        exact Nat.le_succ_of_le h.released
  | xmit =>
    rw [xmitq_step]
    split_ifs with hblast
    · obtain ⟨xq', hxmit, hexact⟩ := h.toAccounted.call_xmit hwell.shape (hroom t.xq (if_pos hblast))
      rw [hxmit]
      exact hexact
    · exact h
  | timer => exact h.timer hwell.shape
  | restart => exact h.restart hwell.shape
  | fack around pkt =>
    obtain ⟨p, sent', hfack, hp, hblast, -⟩ := hwell.fack hnames
    rw [xmitq_step, hfack]
    exact h.fack hwell.shape hp (hblast (hfit.countsUnsent hwell.shape h.toAccounted))
  | free =>
    have hout : ∀ xqe ∈ t.xq.queue, xqe.in_cwindow = false := hfit
    have hcwindow : t.xq.cwindow_size.toNat = 0 := by
      rw [h.tallied.cwindow_size]
      exact List.countP_eq_zero.mpr fun xqe hmem => by simp [hout xqe hmem]
    have hfreqs : t.xq.freqs_out.toNat = 0 := by
      rw [h.tallied.freqs_out]
      exact List.countP_eq_zero.mpr fun xqe hmem => by simp [hout xqe hmem]
    exact Exact.emptied rfl rfl (BitVec.eq_of_toNat_eq hcwindow) (BitVec.eq_of_toNat_eq hfreqs) rfl
  | reinit => exact Exact.emptied rfl rfl rfl rfl rfl

theorem WellFormed.released_le {e : XmitqEvent} {xq : rpc_dg_xmitq_t} (hwell : WellFormed t sent unsent) (h : Exact t.xq)
    (hfits : Accountable order t e) (hreleased : released t e = some xq) : xq.blast_size.toNat ≤ queued_to_send xq := by
  obtain ⟨-, -, hfit⟩ := hfits
  cases e with
  | append n_resvs =>
    cases n_resvs with
    | none => exact absurd hreleased (by simp [released])
    | some n =>
      obtain ⟨xq', unsent', happend, -⟩ := hwell.append hwell.shape rfl
      rw [released, happend, Option.bind_some] at hreleased
      obtain ⟨blast_size, rfl, hle⟩ :=
        released_append hwell.shape h.toAccounted hwell.next_fresh (hfit n rfl) happend hreleased
      exact hle
  | xmit =>
    rw [released] at hreleased
    split_ifs at hreleased
    obtain rfl := Option.some.inj hreleased
    exact h.released
  | _ => exact absurd hreleased (by simp [released])

end Steps

section Runs

variable {order : ByteOrder} {t : Sender}

/-- In a run of events that can be accounted for, the counts of the transmit queue are exact, and no more packets are released or
transmitted than are queued to be sent. -/
theorem accounts_exact (hreach : ((xmitqSystem order).restrict (Accountable order)).Reachable t) :
    Exact t.xq ∧ ∀ e xq, Accountable order t e → released t e = some xq → xq.blast_size.toNat ≤ queued_to_send xq := by
  have hinv : ∃ sent unsent, WellFormed t sent unsent ∧ Exact t.xq := by
    refine hreach.invariant (P := fun t => ∃ sent unsent, WellFormed t sent unsent ∧ Exact t.xq) ?_ ?_
    · intro t hinit
      refine ⟨[], [], WellFormed.init order hinit, ?_⟩
      obtain ⟨next_fragnum, max_snd_tsdu, max_frag_size, snd_frag_size, -, rfl⟩ := hinit
      exact Exact.emptied rfl rfl rfl rfl rfl
    · rintro t e t' ⟨sent, unsent, hwell, hexact⟩ hstep
      obtain ⟨hfits, hnext⟩ := System.restrict_step hstep
      obtain rfl := hwell.step_eq hnext
      obtain ⟨sent', unsent', hwell'⟩ := hwell.step hfits.1
      exact ⟨sent', unsent', hwell', hwell.accounts hexact hfits⟩
  obtain ⟨sent, unsent, hwell, hexact⟩ := hinv
  exact ⟨hexact, fun e xq hfits hreleased => hwell.released_le hexact hfits hreleased⟩

/-- Two of three fragments are sent, a fack acknowledges the first and has the second sent again with the third. -/
theorem accounts_exact_rexmit :
    ∃ t : Sender, (t.xq.cwindow_size = 2 ∧ t.xq.freqs_out = 2 ∧ t.freed.map (·.addr) = [1]) ∧ Exact t.xq ∧
      ∀ e xq, Accountable .little t e → released t e = some xq → xq.blast_size.toNat ≤ queued_to_send xq := by
  obtain ⟨t, hreach, hcounts⟩ := ((xmitqSystem .little).restrict (Accountable .little)).exists_reachable_of_exec
    (two_of_three_sent ++ [.fack on_call (selective_fack 0 2 1 0), .xmit])
    (P := fun t => t.xq.cwindow_size = 2 ∧ t.xq.freqs_out = 2 ∧ t.freed.map (·.addr) = [1]) fresh_sender_init
    (by decide +kernel)
  exact ⟨t, of_decide_eq_true hcounts, accounts_exact hreach⟩

def plain_fack (fragnum : BitVec 16) : rpc_dg_fackpkt_t where
  fragnum
  len := 0
  drep := .little
  body _ := 0

/-- When the first unsent fragment has the number 32770, a fack releases four packets though one is queued. Also, when a queue is
freed with two packets in the window, they stay counted. -/
theorem fack_releases_too_many :
    (∃ t : Sender, (xmitqSystem .little).Reachable t ∧ ¬ Exact t.xq ∧ t.xq.blast_size = 4 ∧ queued_to_send t.xq = 1) ∧
      ∃ t : Sender, (xmitqSystem .little).Reachable t ∧ ¬ Exact t.xq ∧ t.xq.queue = [] ∧ t.xq.cwindow_size = 2 := by
  refine ⟨?_, ?_⟩
  · obtain ⟨t, hreach, hcounts⟩ := (xmitqSystem .little).exists_reachable_of_exec
      (s := { fresh_sender with xq := { rpc__dg_xmitq_init with next_fragnum := 32768 } })
      (two_of_three_sent ++ [.fack on_call (plain_fack 32769)])
      (P := fun t => t.xq.blast_size = 4 ∧ queued_to_send t.xq = 1)
      ⟨32768, RPC_C_DG_INITIAL_MAX_PKT_SIZE, RPC_C_DG_INITIAL_MAX_PKT_SIZE, RPC_C_DG_INITIAL_MAX_PKT_SIZE, by decide, rfl⟩
      (by decide +kernel)
    obtain ⟨hblast, hqueued⟩ := of_decide_eq_true hcounts
    refine ⟨t, hreach, fun hexact => ?_, hblast, hqueued⟩
    have hle := hexact.released
    rw [hblast, hqueued] at hle
    exact absurd hle (by decide)
  · obtain ⟨t, hreach, hcounts⟩ := (xmitqSystem .little).exists_reachable_of_exec (two_of_three_sent ++ [.free])
      (P := fun t => t.xq.queue = [] ∧ t.xq.cwindow_size = 2) fresh_sender_init (by decide +kernel)
    obtain ⟨hqueue, hcwindow⟩ := of_decide_eq_true hcounts
    refine ⟨t, hreach, fun hexact => ?_, hqueue, hcwindow⟩
    have hcount := hexact.tallied.cwindow_size
    rw [hqueue, hcwindow] at hcount
    exact absurd hcount (by decide)

end Runs

end dce.rpc.xmitq
