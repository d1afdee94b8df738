import Dce.Lib.SerialNumbers
import Dce.Lib.System

open lib

set_option linter.style.nameCheck false

namespace dce.rpc.dg

/-- `rpc_dg_pkt_hdr_t`: what the receive queue looks at in the header of a data packet. -/
structure rpc_dg_pkt_hdr_t where
  fragnum : BitVec 16
  serial : BitVec 16
  frag : Bool
  last_frag : Bool
  no_fack : Bool
  deriving DecidableEq

/-- `rpc_dg_recvq_elt_t`: a fragment in the first of its packet buffers, with the number of those behind it. `taken` says that
the buffer with the header was already handed out, so that `hdrp` is null. -/
structure rpc_dg_recvq_elt_t where
  hdr : rpc_dg_pkt_hdr_t
  taken : Bool
  frag_len : BitVec 32
  more_data : ℕ
  deriving DecidableEq

/-- The header of an element, as long as it is there. -/
def rpc_dg_recvq_elt_t.hdrp (rqe : rpc_dg_recvq_elt_t) : Option rpc_dg_pkt_hdr_t := if rqe.taken then none else some rqe.hdr

/-- `hdrp->fragnum`. -/
def rpc_dg_recvq_elt_t.fragnum (rqe : rpc_dg_recvq_elt_t) : Option (BitVec 16) := rqe.hdrp.map (·.fragnum)

/-- `rpc_dg_recvq_t`: `head` is the list that the links from the head form, a pointer to an element is its place in it. -/
structure rpc_dg_recvq_t where
  head : List rpc_dg_recvq_elt_t
  last_inorder : Option ℕ
  high_rcv_frag_size : BitVec 32
  next_fragnum : BitVec 16
  high_fragnum : BitVec 16
  high_serial_num : BitVec 16
  head_fragnum : BitVec 16
  head_serial_num : BitVec 16
  wake_thread_qsize : BitVec 16
  max_queue_len : BitVec 16
  queue_len : BitVec 8
  inorder_len : BitVec 8
  recving_frags : Bool
  all_pkts_recvd : Bool
  is_way_validated : Bool
  first_frag_taken : Bool
  deriving DecidableEq

/-- What a receive queue depends on around it: the sort of call and its reservations, and whether packets are rationed. -/
structure Surroundings where
  is_server : Bool
  n_resvs : ℕ
  max_resvs : ℕ
  is_rationing : Bool
  is_private : Bool
  deriving DecidableEq

def RPC_C_DG_MAX_RECVQ_LEN : BitVec 16 := 96

def RPC_C_DG_MUST_RECV_FRAG_SIZE : BitVec 32 := 1464

def RPC_C_DG_INITIAL_MAX_PKT_SIZE : BitVec 32 := 1024

def DEFAULT_WAKE_THREAD_QSIZE : BitVec 16 := 6 * 1024

def rpc__dg_recvq_init : rpc_dg_recvq_t where
  head := []
  last_inorder := none
  high_rcv_frag_size := RPC_C_DG_INITIAL_MAX_PKT_SIZE
  next_fragnum := 0
  high_fragnum := -1
  high_serial_num := -1
  head_fragnum := -1
  head_serial_num := -1
  wake_thread_qsize := DEFAULT_WAKE_THREAD_QSIZE
  max_queue_len := RPC_C_DG_MAX_RECVQ_LEN
  queue_len := 0
  inorder_len := 0
  recving_frags := false
  all_pkts_recvd := false
  is_way_validated := false
  first_frag_taken := false

section Insert

/-- The limit for fragments that take several packets, `RPC_C_DG_MAX_RECVQ_LEN / MIN(n_resvs, max_resvs)`. -/
def mbf_queue_len (around : Surroundings) : ℕ := RPC_C_DG_MAX_RECVQ_LEN.toNat / min around.n_resvs around.max_resvs

/-- The first large fragment asks for a lower limit to the queue. -/
def asks_adjustment (rq : rpc_dg_recvq_t) (around : Surroundings) (frag_len : BitVec 32) : Prop :=
  frag_len > rq.high_rcv_frag_size ∧ around.n_resvs > 0 ∧ frag_len > RPC_C_DG_MUST_RECV_FRAG_SIZE ∧
    rq.max_queue_len = RPC_C_DG_MAX_RECVQ_LEN

instance (rq : rpc_dg_recvq_t) (around : Surroundings) (frag_len : BitVec 32) :
    Decidable (asks_adjustment rq around frag_len) := by
  unfold asks_adjustment
  infer_instance

/-- The limit is lowered when the queue is no longer than the new one and has a fragment in order. -/
def adjusts (rq : rpc_dg_recvq_t) (around : Surroundings) (frag_len : BitVec 32) : Prop :=
  asks_adjustment rq around frag_len ∧ rq.queue_len.toNat ≤ mbf_queue_len around ∧ rq.inorder_len.toNat > 0

instance (rq : rpc_dg_recvq_t) (around : Surroundings) (frag_len : BitVec 32) : Decidable (adjusts rq around frag_len) := by
  unfold adjusts
  infer_instance

/-- What a receiver remembers of every fragment: whether it receives fragments, the highest serial number and the largest
fragment, and with that the limit to its queue. -/
def note_fragment (rq : rpc_dg_recvq_t) (around : Surroundings) (rqe : rpc_dg_recvq_elt_t) : rpc_dg_recvq_t :=
  { rq with
    recving_frags := rq.recving_frags || rqe.hdr.frag
    high_serial_num := if serialLt rq.high_serial_num rqe.hdr.serial then rqe.hdr.serial else rq.high_serial_num
    high_rcv_frag_size := if rqe.frag_len > rq.high_rcv_frag_size then rqe.frag_len else rq.high_rcv_frag_size
    max_queue_len :=
      if adjusts rq around rqe.frag_len then BitVec.ofNat 16 (mbf_queue_len around) else rq.max_queue_len }

/-- The number of elements, from the front of a list on, whose fragments follow one another from `next_fragnum` on. -/
def inorder_run : List rpc_dg_recvq_elt_t → BitVec 16 → ℕ
  | [], _ => 0
  | scan_rqe :: rest, next_fragnum =>
    if scan_rqe.fragnum = some next_fragnum then inorder_run rest (next_fragnum + 1) + 1 else 0

/-- The place at which an in-order fragment is linked in: behind the last one in order, or at the head. -/
def inorder_place (rq : rpc_dg_recvq_t) : ℕ :=
  match rq.last_inorder with
  | none => 0
  | some last => last + 1

/-- The next in-order fragment is linked in and those that follow it become in-order. -/
def link_in_order (rq : rpc_dg_recvq_t) (rqe : rpc_dg_recvq_elt_t) : rpc_dg_recvq_t :=
  let place := inorder_place rq
  let run := inorder_run (rq.head.drop place) (rq.next_fragnum + 1)
  { rq with
    head := rq.head.take place ++ rqe :: rq.head.drop place
    head_fragnum := if rq.last_inorder = none then rqe.hdr.fragnum else rq.head_fragnum
    inorder_len := rq.inorder_len + BitVec.ofNat 8 (run + 1)
    last_inorder := some (place + run)
    next_fragnum := rq.next_fragnum + BitVec.ofNat 16 (run + 1) }

/-- The number of elements, from the front of a list on, whose fragments come before the given one. -/
def scan_below : List rpc_dg_recvq_elt_t → BitVec 16 → ℕ
  | [], _ => 0
  | scan_rqe :: rest, fragnum => if scan_rqe.fragnum.any (serialLt · fragnum) then scan_below rest fragnum + 1 else 0

/-- The place of an out-of-order fragment: the scan starts behind the fragments that are in order. -/
def out_of_order_place (rq : rpc_dg_recvq_t) (fragnum : BitVec 16) : ℕ :=
  inorder_place rq + scan_below (rq.head.drop (inorder_place rq)) fragnum

/-- A fragment too far from the first one that is queued, or to be queued, is not accepted. -/
def too_far (rq : rpc_dg_recvq_t) (fragnum : BitVec 16) : Prop :=
  (rq.head ≠ [] ∧ serialLt rq.head_fragnum rq.next_fragnum ∧ serialLe (rq.head_fragnum + rq.max_queue_len) fragnum) ∨
    serialLe (rq.next_fragnum + rq.max_queue_len) fragnum

instance (rq : rpc_dg_recvq_t) (fragnum : BitVec 16) : Decidable (too_far rq fragnum) := by
  unfold too_far
  infer_instance

/-- An out-of-order fragment is linked in at its place, and is the new head when that is the first one. -/
def link_out_of_order (rq : rpc_dg_recvq_t) (rqe : rpc_dg_recvq_elt_t) : rpc_dg_recvq_t :=
  let place := out_of_order_place rq rqe.hdr.fragnum
  { rq with
    head := rq.head.take place ++ rqe :: rq.head.drop place
    last_inorder := rq.last_inorder
    head_fragnum := if place = 0 then rqe.hdr.fragnum else rq.head_fragnum }

/-- The queue with a fragment linked in, if it is added. -/
def link (rq : rpc_dg_recvq_t) (around : Surroundings) (rqe : rpc_dg_recvq_elt_t) : Option rpc_dg_recvq_t :=
  let fragnum := rqe.hdr.fragnum
  if around.is_server ∧ around.n_resvs = 0 then none
  else if fragnum = rq.next_fragnum then
    if rq.queue_len.setWidth 16 = rq.max_queue_len then none
    else if around.is_rationing ∧ (rq.last_inorder ≠ none ∨ (!rq.is_way_validated ∧ fragnum ≠ 0)) then none
    else some (link_in_order rq rqe)
  else if serialLt fragnum rq.next_fragnum then none
  else if around.is_rationing then none
  else if too_far rq fragnum then none
  else if (rq.head[out_of_order_place rq fragnum]?).bind (·.fragnum) = some fragnum then none
  else some (link_out_of_order rq rqe)

/-- The last in-order element, when its header is there, is the last fragment of the stream. -/
def ends_stream (rq : rpc_dg_recvq_t) : Bool :=
  match rq.last_inorder with
  | none => false
  | some last => !rq.recving_frags || ((rq.head[last]?).bind (·.hdrp)).any (·.last_frag)

/-- The state of the queue after a packet was added. -/
def count_added (rq : rpc_dg_recvq_t) (fragnum : BitVec 16) : rpc_dg_recvq_t :=
  { rq with
    queue_len := rq.queue_len + 1
    high_fragnum := if serialLt rq.high_fragnum fragnum then fragnum else rq.high_fragnum
    all_pkts_recvd := rq.all_pkts_recvd || ends_stream rq }

/-- What `rpc__dg_call_recvq_insert` does: the queue, whether the packet was added, whether a fack is sent and whether the
receiver is woken. -/
structure Inserted where
  rq : rpc_dg_recvq_t
  added_to_queue : Bool
  xmit_fack : Bool
  wake_thread : Bool

/-- A fack is due when the sender asked for one or the queue is full, unless the stream is complete. -/
def fack_due (rq : rpc_dg_recvq_t) (rqe : rpc_dg_recvq_elt_t) : Bool :=
  rq.recving_frags && !rq.all_pkts_recvd && (rq.queue_len.setWidth 16 = rq.max_queue_len || !rqe.hdr.no_fack)

/-- A receiver is woken when the stream is complete, the queue is full, there is enough in order, or packets are rationed and
there is one in order. -/
def wake_due (rq : rpc_dg_recvq_t) (around : Surroundings) : Bool :=
  !around.is_private && (rq.all_pkts_recvd || rq.queue_len.setWidth 16 = rq.max_queue_len ||
    rq.high_rcv_frag_size * rq.inorder_len.setWidth 32 ≥ rq.wake_thread_qsize.setWidth 32 ||
    (around.is_rationing && rq.inorder_len > 0))

def rpc__dg_call_recvq_insert (rq : rpc_dg_recvq_t) (around : Surroundings) (rqe : rpc_dg_recvq_elt_t) : Inserted :=
  let noted := note_fragment rq around rqe
  let linked := link noted around rqe
  let rq := (linked.map fun rq => count_added rq rqe.hdr.fragnum).getD noted
  { rq, added_to_queue := linked.isSome, xmit_fack := fack_due rq rqe, wake_thread := wake_due rq around }

end Insert

section Receive

/-- What the authentication makes of a fragment: it is not checked, it is refused, or it is found good and the packet buffers
that held only the trailer are freed, all but the given number of those behind the first. -/
inductive RecvCk where
  | unchecked
  | refused
  | good (kept : ℕ)
  deriving DecidableEq

/-- The head of the queue after its authentication, if it was not refused. Only a buffer with a header is checked. -/
def recv_ck (rqe : rpc_dg_recvq_elt_t) (ck : RecvCk) : Option rpc_dg_recvq_elt_t :=
  if rqe.hdrp = none then some rqe
  else
    match ck with
    | .unchecked => some rqe
    | .refused => none
    | .good kept => some { rqe with more_data := min rqe.more_data kept }

/-- The queue after the first packet buffer of its head was taken off. -/
def take_head (rq : rpc_dg_recvq_t) (rqe : rpc_dg_recvq_elt_t) (next : List rpc_dg_recvq_elt_t) : rpc_dg_recvq_t :=
  let noted :=
    { rq with
      head_serial_num := (rqe.hdrp.map rpc_dg_pkt_hdr_t.serial).getD rq.head_serial_num
      first_frag_taken := rq.first_frag_taken || rqe.fragnum = some 0 }
  if rqe.more_data ≠ 0 then
    { noted with head := { rqe with taken := true, more_data := rqe.more_data - 1 } :: next }
  else
    { noted with
      head := next
      head_fragnum := (next.head?.bind (·.fragnum)).getD rq.head_fragnum
      last_inorder := rq.last_inorder.bind fun last => if last = 0 then none else some (last - 1)
      inorder_len := rq.inorder_len - 1
      queue_len := rq.queue_len - 1 }

/-- What `rpc__dg_call_receive_int` does: the packet buffer that it hands out, the queue, and whether a fack is sent. -/
structure Received where
  data : Option rpc_dg_recvq_elt_t
  rq : rpc_dg_recvq_t
  xmit_fack : Bool

/-- `rpc__dg_call_receive_int` on a call that has neither failed nor been orphaned, which gets no more packets. It waits as
long as nothing is in order; a peer that saw a full queue is told of the room in it. -/
def rpc__dg_call_receive_int (rq : rpc_dg_recvq_t) (ck : RecvCk) : Option Received :=
  match rq.last_inorder, rq.head with
  | none, _ => none
  | some _, [] => none
  | some _, rqe :: next =>
    match recv_ck rqe ck with
    | none => some { data := none, rq, xmit_fack := false }
    | some rqe =>
      let rq := take_head rq rqe next
      some { data := some rqe, rq, xmit_fack := rq.queue_len.toNat + 1 = rq.max_queue_len.toNat }

end Receive

/-- What happens to a receive queue: a fragment arrives, the client is found valid, or a packet buffer is handed out. -/
inductive RecvqEvent where
  | insert (around : Surroundings) (hdr : rpc_dg_pkt_hdr_t) (frag_len : BitVec 32) (more_data : ℕ)
  | way_validated
  | receive (ck : RecvCk)
  deriving DecidableEq

def recvqSystem : System rpc_dg_recvq_t RecvqEvent where
  init rq := ∃ size, rq = { rpc__dg_recvq_init with high_rcv_frag_size := size }
  step
    | rq, .insert around hdr frag_len more_data =>
      some (rpc__dg_call_recvq_insert rq around { hdr, taken := false, frag_len, more_data }).rq
    | rq, .way_validated => some { rq with is_way_validated := true }
    | rq, .receive ck => (rpc__dg_call_receive_int rq ck).map (·.rq)

end dce.rpc.dg
