import Dce.Rpc.RecvqOrder

open lib

namespace dce.rpc.dg

def RecvqEvent.data (rq : rpc_dg_recvq_t) : RecvqEvent → Option rpc_dg_recvq_elt_t
  | .receive ck => (rpc__dg_call_receive_int rq ck).bind (·.data)
  | _ => none

/-- The packet buffers that a run hands out, in order. -/
def handed_out : rpc_dg_recvq_t → List RecvqEvent → List rpc_dg_recvq_elt_t
  | _, [] => []
  | rq, event :: events =>
    (event.data rq).toList ++ ((recvqSystem.step rq event).map fun rq => handed_out rq events).getD []

/-- The fragments of which the last packet buffer is handed out. -/
def completed (buffers : List rpc_dg_recvq_elt_t) : ℕ := buffers.countP (·.more_data = 0)

/-- The number of the oldest fragment that was not handed out as a whole. -/
def oldest (rq : rpc_dg_recvq_t) : BitVec 16 := rq.next_fragnum - BitVec.ofNat 16 rq.inorder_len.toNat

theorem inorder_run_le (queue : List rpc_dg_recvq_elt_t) (n : BitVec 16) : inorder_run queue n ≤ queue.length := by
  induction queue generalizing n with
  | nil => exact le_rfl
  | cons rqe queue ih =>
    rw [inorder_run, List.length_cons]
    split
    · exact Nat.succ_le_succ (ih _)
    · exact Nat.zero_le _

variable {rq rq' : rpc_dg_recvq_t} {around : Surroundings} {rqe : rpc_dg_recvq_elt_t} {event : RecvqEvent}

theorem oldest_link_in_order (h : Described rq) : oldest (link_in_order rq rqe) = oldest rq := by
  obtain ⟨next, inorder, others, h⟩ := h
  have hmax : RPC_C_DG_MAX_RECVQ_LEN.toNat = 96 := rfl
  have hlimit := h.limit_le
  have hroom := h.room
  have hrun := inorder_run_le (rq.head.drop (inorder_place rq)) (rq.next_fragnum + 1)
  rw [List.length_drop, h.length] at hrun
  rw [oldest, link_in_order, oldest]
  dsimp only
  generalize inorder_run (rq.head.drop (inorder_place rq)) (rq.next_fragnum + 1) = run at hrun ⊢
  have hlen : (rq.inorder_len + BitVec.ofNat 8 (run + 1)).toNat = inorder + (run + 1) := by
    rw [BitVec.toNat_add, h.toNat_inorder_len, BitVec.toNat_ofNat]
    omega
  rw [hlen, h.toNat_inorder_len]
  bv_omega

theorem oldest_link (h : Described rq) (hlink : link rq around rqe = some rq') : oldest rq' = oldest rq := by
  rw [dg.link] at hlink
  split_ifs at hlink
  · obtain rfl := Option.some.inj hlink
    exact oldest_link_in_order h
  · obtain rfl := Option.some.inj hlink
    rfl

theorem oldest_insert (h : Described rq) (hkeeps : adjusts rq around rqe.frag_len → KeepsWindow rq (mbf_queue_len around)) :
    oldest (rpc__dg_call_recvq_insert rq around rqe).rq = oldest rq := by
  obtain ⟨next, inorder, others, h⟩ := h
  have hnoted : Described (note_fragment rq around rqe) := ⟨next, inorder, others, h.note hkeeps⟩
  rw [rpc__dg_call_recvq_insert]
  dsimp only
  cases hlink : link (note_fragment rq around rqe) around rqe with
  | none => rfl
  | some linked =>
    have hlinked := oldest_link hnoted hlink
    exact hlinked

theorem oldest_receive (h : Described rq) {ck : RecvCk} {received : Received}
    (hreceived : rpc__dg_call_receive_int rq ck = some received) :
    (∀ rqe ∈ received.data, rqe.hdr.fragnum = oldest rq) ∧
      oldest received.rq = oldest rq + BitVec.ofNat 16 (completed received.data.toList) := by
  obtain ⟨next, inorder, others, h⟩ := h
  have hsound := h.sound
  cases hlast : rq.last_inorder with
  | none => simp [rpc__dg_call_receive_int, hlast] at hreceived
  | some last =>
    have hpos : 0 < rq.inorder_len.toNat := by
      rw [Nat.pos_iff_ne_zero]
      intro hzero
      rw [hsound.last_inorder, if_pos hzero] at hlast
      simp at hlast
    cases hhead : rq.head with
    | nil => simp [rpc__dg_call_receive_int, hlast, hhead] at hreceived
    | cons rqe rest =>
      simp only [rpc__dg_call_receive_int, hlast, hhead] at hreceived
      cases hck : recv_ck rqe ck with
      | none =>
        simp only [hck, Option.some.injEq] at hreceived
        subst hreceived
        exact ⟨by simp, by simp [completed]⟩
      | some checked =>
        simp only [hck, Option.some.injEq] at hreceived
        subst hreceived
        have hfirst : checked.hdr.fragnum = oldest rq := by
          have hinorder := hsound.inorder 0 hpos
          rw [hhead, List.getElem?_cons_zero, Option.map_some, Nat.sub_zero] at hinorder
          rw [recv_ck_hdr hck]
          exact Option.some.inj hinorder
        refine ⟨fun rqe hrqe => Option.some.inj hrqe ▸ hfirst, ?_⟩
        rw [take_head]
        split_ifs with hmore
        · simp [oldest, completed, hmore]
        · have hlen : (rq.inorder_len - 1).toNat + 1 = rq.inorder_len.toNat := by
            rw [BitVec.toNat_sub]
            change (2 ^ 8 - 1 + rq.inorder_len.toNat) % 2 ^ 8 + 1 = _
            have hlt := rq.inorder_len.isLt
            omega
          have hone : completed (some checked).toList = 1 := by simp [completed, not_not.mp hmore]
          rw [hone, oldest, oldest, ← hlen]
          dsimp only
          bv_omega

theorem oldest_step (h : Described rq) (hkeeps : Keeps rq event) (hstep : recvqSystem.step rq event = some rq') :
    (∀ rqe ∈ event.data rq, rqe.hdr.fragnum = oldest rq) ∧
      oldest rq' = oldest rq + BitVec.ofNat 16 (completed (event.data rq).toList) := by
  cases event with
  | insert around hdr frag_len more_data =>
    obtain rfl := Option.some.inj hstep
    have hinsert := @oldest_insert rq around ⟨hdr, false, frag_len, more_data⟩ h hkeeps
    exact ⟨by simp [RecvqEvent.data], hinsert.trans (BitVec.add_zero _).symm⟩
  | way_validated =>
    obtain rfl := Option.some.inj hstep
    exact ⟨by simp [RecvqEvent.data], (BitVec.add_zero (oldest rq)).symm⟩
  | receive ck =>
    obtain ⟨received, hreceived, rfl⟩ := Option.map_eq_some_iff.mp hstep
    rw [RecvqEvent.data, hreceived]
    exact oldest_receive h hreceived

theorem handed_out_oldest {events : List RecvqEvent} (h : Described rq)
    (hrun : (recvqSystem.restrict Keeps).exec rq events = some rq') {i : ℕ} (hi : (handed_out rq events)[i]? = some rqe) :
    rqe.hdr.fragnum = oldest rq + BitVec.ofNat 16 (completed ((handed_out rq events).take i)) := by
  induction events generalizing rq i with
  | nil => simp [handed_out] at hi
  | cons event events ih =>
    obtain ⟨mid, hmid, hrest⟩ := Option.bind_eq_some_iff.mp hrun
    obtain ⟨hkeeps, hmid⟩ := System.restrict_step hmid
    obtain ⟨hdata, hnext⟩ := oldest_step h hkeeps hmid
    have ih := fun i => ih (i := i) (recvq_step_described h hkeeps hmid) hrest
    rw [handed_out, hmid, Option.map_some, Option.getD_some] at hi ⊢
    cases hevent : event.data rq with
    | none =>
      rw [hevent] at hi hnext
      have hfragnum := ih i hi
      rwa [hnext, Option.toList_none, completed, List.countP_nil, BitVec.add_zero] at hfragnum
    | some first =>
      rw [hevent] at hi hnext
      cases i with
      | zero =>
        obtain rfl : first = rqe := by simpa using hi
        simpa [completed] using hdata first hevent
      | succ i =>
        have hfragnum := ih i (by simpa using hi)
        rw [hfragnum, hnext, BitVec.add_assoc, ← BitVec.ofNat_add]
        simp [completed, List.countP_cons, Nat.add_comm]

/-- However fragments are lost, doubled or overtake each other, the packet buffers are handed out in the order of the fragments
from 0 on: each is one of the fragment whose number is that of the fragments handed out before as a whole. -/
theorem fragments_in_order (rq rq' : rpc_dg_recvq_t) (hinit : recvqSystem.init rq) (events : List RecvqEvent)
    (hrun : (recvqSystem.restrict Keeps).exec rq events = some rq') (i : ℕ) (rqe : rpc_dg_recvq_elt_t)
    (hi : (handed_out rq events)[i]? = some rqe) :
    rqe.hdr.fragnum = BitVec.ofNat 16 (completed ((handed_out rq events).take i)) := by
  obtain ⟨size, rfl⟩ := hinit
  have hfragnum := handed_out_oldest (recvq_init_described size) hrun hi
  have hfirst : oldest { rpc__dg_recvq_init with high_rcv_frag_size := size } = 0#16 := by simp [oldest, rpc__dg_recvq_init]
  rwa [hfirst, BitVec.zero_add] at hfragnum

def shuffled : List RecvqEvent :=
  [fragmentOfTwo 1 1024, fragmentOfTwo 0 1024, fragmentOfTwo 1 1024, .receive .unchecked, .receive .unchecked]

theorem fragments_in_order_shuffled :
    ∃ rqe, (handed_out rpc__dg_recvq_init shuffled)[1]? = some rqe ∧
      rqe.hdr.fragnum = BitVec.ofNat 16 (completed ((handed_out rpc__dg_recvq_init shuffled).take 1)) := by
  obtain ⟨rq, hrun⟩ : ∃ rq, (recvqSystem.restrict Keeps).exec rpc__dg_recvq_init shuffled = some rq :=
    Option.isSome_iff_exists.mp (by decide +kernel)
  obtain ⟨rqe, hi⟩ : ∃ rqe, (handed_out rpc__dg_recvq_init shuffled)[1]? = some rqe :=
    Option.isSome_iff_exists.mp (by decide +kernel)
  exact ⟨rqe, hi, fragments_in_order rpc__dg_recvq_init rq ⟨_, rfl⟩ shuffled hrun 1 rqe hi⟩

end dce.rpc.dg
