import Dce.Rpc.Xmitq

open lib

set_option linter.style.nameCheck false

namespace dce.rpc.xmitq

/-- What is read of a fack or nocall packet: its fragment number, the length and the byte order that its header tells, and the
memory from its body on. -/
structure rpc_dg_fackpkt_t where
  fragnum : BitVec 16
  len : BitVec 16
  drep : ByteOrder
  body : ℕ → Byte

section Body

variable (order : ByteOrder) (pkt : rpc_dg_fackpkt_t)

/-- A field of the body, its bytes swapped when the sender's order is not the host's. -/
def field (off size : ℕ) : ℕ :=
  let bytes := (List.range size).map fun i => pkt.body (off + i)
  order.load (if pkt.drep ≠ order then bytes.reverse else bytes)

def RPC_C_DG_FACKPKT_BODY_VERS : Byte := 1

def RPC_C_DG_RAW_FACKPKT_BODY_SIZE : ℕ := 20

/-- Where the fields of `rpc_dg_fackpkt_body_t` are. -/
def OFF_WINDOW_SIZE : ℕ := 2
def OFF_MAX_TSDU : ℕ := 4
def OFF_MAX_FRAG_SIZE : ℕ := 8
def OFF_SERIAL_NUM : ℕ := 12
def OFF_SELACK_LEN : ℕ := 14
def OFF_SELACK : ℕ := 16

def vers : Byte := pkt.body 0
def window_size : BitVec 16 := BitVec.ofNat 16 (field order pkt OFF_WINDOW_SIZE 2)
def max_tsdu : BitVec 32 := BitVec.ofNat 32 (field order pkt OFF_MAX_TSDU 4)
def max_frag_size : BitVec 32 := BitVec.ofNat 32 (field order pkt OFF_MAX_FRAG_SIZE 4)
def serial_num : BitVec 16 := BitVec.ofNat 16 (field order pkt OFF_SERIAL_NUM 2)
def selack_len : BitVec 16 := BitVec.ofNat 16 (field order pkt OFF_SELACK_LEN 2)

/-- `selack[i]`. -/
def selack (i : ℕ) : BitVec 32 := BitVec.ofNat 32 (field order pkt (OFF_SELACK + 4 * i) 4)

def masks : List (BitVec 32) := (List.range (selack_len order pkt).toNat).map (selack order pkt)

def using_selacks : Bool := pkt.len > 12 && vers pkt = RPC_C_DG_FACKPKT_BODY_VERS

/-- Octets of a body that are read. -/
structure Span where
  off : ℕ
  len : ℕ
  deriving DecidableEq

end Body

section Blast

/-- What is known of the blast that a fack answers: the serial number up to which it was followed, and the increment of the
window. -/
structure Blast where
  curr_serial : BitVec 16
  window_incr : ℕ
  deriving DecidableEq

def TRACK_CURRENT_BLAST (xq : rpc_dg_xmitq_t) (xqe : rpc_dg_xmitq_elt_t) (lost : Bool) (blast : Blast) : Blast :=
  let other_request : Bool := !xqe.no_fack && xqe.serial_num ≠ xq.last_fack_serial
  -- the sum is not one of 16 bits
  if xqe.serial_num.toNat = blast.curr_serial.toNat + 1 then
    { curr_serial := xqe.serial_num
      window_incr := if other_request then 0 else if !lost then blast.window_incr + 1 else blast.window_incr }
  else if serialLt blast.curr_serial xqe.serial_num ∧ serialLe xqe.serial_num xq.last_fack_serial then
    { curr_serial := xqe.serial_num, window_incr := if lost || other_request then 0 else 1 }
  else blast

end Blast

section Cumulative

/-- What the removal of packets has done so far. -/
structure Removal where
  xq : rpc_dg_xmitq_t
  blast : Blast
  freed : List rpc_dg_xmitq_elt_t

def Removal.remove (s : Removal) (selacks : Bool) (xqe : rpc_dg_xmitq_elt_t) : Removal where
  xq := uncount false s.xq xqe
  blast :=
    if selacks then TRACK_CURRENT_BLAST s.xq xqe false s.blast
    else { s.blast with window_incr := s.blast.window_incr + 1 }
  freed := s.freed ++ [xqe]

/-- The loop of `rpc__dg_fack_common` that removes the packets up to the fragment of the fack. It runs beyond the end of the
queue when no element of it is the first unsent one. -/
def remove_loop (selacks : Bool) (fragnum : BitVec 16) :
    List rpc_dg_xmitq_elt_t → Removal → Option (List rpc_dg_xmitq_elt_t × Removal)
  | [], s => if s.xq.first_unsent = none then some ([], s) else none
  | xqe :: rest, s =>
    if s.xq.first_unsent = some xqe.addr then some (xqe :: rest, s)
    else if serialLe xqe.fragnum fragnum then remove_loop selacks fragnum rest (s.remove selacks xqe)
    else some (xqe :: rest, s)

end Cumulative

section Selective

/-- The scan of a queue along the masks: `prev` are the elements that were passed and kept, `curr` those from `xq_curr` on. The
queue and the retransmission queue of `xq` are kept beside it. -/
structure Scan extends Removal where
  prev : List rpc_dg_xmitq_elt_t
  curr : List rpc_dg_xmitq_elt_t
  rexmitq : List Addr
  rexmit_cnt : ℕ
  words : ℕ

/-- The element at `xq_curr` got acknowledged. -/
def Scan.ack (s : Scan) (xqe : rpc_dg_xmitq_elt_t) (rest : List rpc_dg_xmitq_elt_t) : Scan :=
  { s with
    blast := TRACK_CURRENT_BLAST s.xq xqe false s.blast
    xq :=
      { uncount true s.xq xqe with
        tail := if s.xq.tail = some xqe.addr then s.prev.getLast?.map (·.addr) else s.xq.tail }
    freed := s.freed ++ [xqe]
    curr := rest }

/-- The element at `xq_curr` is put on the retransmission queue. -/
def Scan.rexmit (s : Scan) (xqe : rpc_dg_xmitq_elt_t) (rest : List rpc_dg_xmitq_elt_t) : Scan :=
  { s with
    prev := s.prev ++ [leave_window xqe]
    curr := rest
    rexmitq := s.rexmitq ++ [xqe.addr]
    rexmit_cnt := s.rexmit_cnt + 1 }

/-- The element at `xq_curr` is passed. -/
def Scan.pass (s : Scan) (xqe : rpc_dg_xmitq_elt_t) (rest : List rpc_dg_xmitq_elt_t) : Scan :=
  { s with prev := s.prev ++ [xqe], curr := rest }

/-- The element at `xq_curr` was lost: it is of an earlier packet than the one that induced the fack. -/
def Scan.lost (s : Scan) (fack_fragnum : BitVec 16) (xqe : rpc_dg_xmitq_elt_t) (rest : List rpc_dg_xmitq_elt_t) : Scan :=
  let blast := TRACK_CURRENT_BLAST s.xq xqe true s.blast
  let restart : Bool := xqe.in_cwindow && !xqe.no_fack && serialLt xqe.fragnum fack_fragnum
  Scan.rexmit
    { s with
      xq := uncount false s.xq xqe
      blast := { blast with window_incr := if restart then 0 else blast.window_incr } }
    xqe rest

def scan_bit (fack_fragnum selack_fragnum : BitVec 16) (acked : Bool) (s : Scan) : Scan :=
  match s.curr with
  | [] => s
  | xqe :: rest =>
    if selack_fragnum ≠ xqe.fragnum then s
    else if acked then s.ack xqe rest
    else if serialLt xqe.serial_num s.xq.last_fack_serial then s.lost fack_fragnum xqe rest
    else s.pass xqe rest

/-- The loop over the bits of a mask that are left; the last mask is left when it has no more bits set. -/
def scan_mask (fack_fragnum : BitVec 16) (is_last : Bool) : ℕ → BitVec 32 → BitVec 16 → Scan → Scan
  | 0, _, _, s => s
  | n + 1, mask, selack_fragnum, s =>
    if (mask = 0 ∧ is_last) ∨ s.curr.isEmpty then s
    else
      scan_mask fack_fragnum is_last n (mask >>> 1) (selack_fragnum + 1)
        (scan_bit fack_fragnum selack_fragnum (mask.getLsbD 0) s)

def scan_masks (fack_fragnum : BitVec 16) : List (BitVec 32) → BitVec 16 → Scan → Scan
  | [], _, s => s
  | mask :: rest, selack_fragnum, s =>
    let s := scan_mask fack_fragnum rest.isEmpty 32 mask selack_fragnum { s with words := s.words + 1 }
    if s.curr.isEmpty then s else scan_masks fack_fragnum rest (selack_fragnum + 32) s

/-- The search for packets behind the masks that are to be retransmitted. It runs beyond the end of the queue when the first
unsent element was passed. -/
def scan_rest (first_unsent : Option Addr) : List rpc_dg_xmitq_elt_t → Scan → Option Scan
  | [], s => if first_unsent = none then some { s with curr := [] } else none
  | xqe :: rest, s =>
    if first_unsent = some xqe.addr then some { s with curr := xqe :: rest }
    else if serialLe xqe.serial_num s.xq.last_fack_serial then
      scan_rest first_unsent rest (Scan.rexmit { s with xq := uncount true s.xq xqe } xqe rest)
    else scan_rest first_unsent rest (s.pass xqe rest)

/-- `do_selective_ack` on a queue that is not empty. -/
def do_selective_ack (order : ByteOrder) (pkt : rpc_dg_fackpkt_t) (s : Scan) : Option Scan :=
  let s := scan_masks pkt.fragnum (masks order pkt) (pkt.fragnum + 1) s
  scan_rest s.xq.first_unsent s.curr s

end Selective

section Fack

/-- What the processing of a fack depends on around it: the sort of call, whether it has all its packets reserved, and whether
the reservation for another fragment size is there or granted. -/
structure Around where
  is_client : Bool
  has_max_resvs : Bool
  resv_granted : Bool
  deriving DecidableEq

/-- What the processing of a fack does: the queue, the elements that are freed, what it has read of the body, and whether the
call fails. -/
structure Processed where
  xq : rpc_dg_xmitq_t
  freed : List rpc_dg_xmitq_elt_t
  blast : Blast
  rexmit_cnt : ℕ
  reads : List Span
  failed : Bool

variable (order : ByteOrder) (around : Around) (pkt : rpc_dg_fackpkt_t)

def fack_frag_size (xq : rpc_dg_xmitq_t) : BitVec 32 :=
  let our_min := min xq.max_snd_tsdu.toNat xq.max_frag_size.toNat
  let size := BitVec.ofNat 32 (min our_min (min (max_tsdu order pkt).toNat (max_frag_size order pkt).toNat)) &&& ~~~7
  if size = 0 then RPC_C_DG_INITIAL_MAX_PKT_SIZE else size

/-- The fragment size after a fack, and whether it is a failure that the peer shrinks it. -/
def set_frag_size (xq : rpc_dg_xmitq_t) (snd_frag_size : BitVec 32) : BitVec 32 × Bool :=
  if xq.snd_frag_size.toNat > snd_frag_size.toNat then
    (xq.snd_frag_size, !(around.is_client && xq.window_size = 0 && (xq.queue.head?.any fun head => head.fragnum = 0)))
  else if around.has_max_resvs then (snd_frag_size, false)
  else if xq.push then (xq.snd_frag_size, false)
  else if around.resv_granted then (snd_frag_size, false)
  else (xq.snd_frag_size, false)

def adjust_window (window_size : BitVec 16) (snd_frag_size : BitVec 32) : BitVec 16 :=
  if window_size.toNat > 2 then
    let nwindow := (window_size.toNat * 1024) / snd_frag_size.toNat
    if nwindow = 0 then BitVec.ofNat 16 (min window_size.toNat 3) else BitVec.ofNat 16 nwindow
  else window_size

/-- The state in which the selective acknowledgements of a body are processed. -/
def start_scan (p : Processed) : Scan where
  xq := p.xq
  blast := p.blast
  freed := p.freed
  prev := []
  curr := p.xq.queue
  rexmitq := p.xq.rexmitq
  rexmit_cnt := p.rexmit_cnt
  words := 0

/-- The octets that `do_selective_ack` reads. -/
def selack_reads (words : ℕ) : List Span := ⟨OFF_SELACK_LEN, 2⟩ :: (List.range words).map fun i => ⟨OFF_SELACK + 4 * i, 4⟩

/-- What `do_selective_ack` leaves. -/
def end_scan (p : Processed) (s : Scan) : Processed :=
  { p with
    xq := { s.xq with queue := s.prev ++ s.curr, rexmitq := s.rexmitq }
    freed := s.freed
    blast := s.blast
    rexmit_cnt := s.rexmit_cnt
    reads := p.reads ++ selack_reads s.words }

/-- The selective acknowledgements of a body, if there are any and the queue is not empty. -/
def fack_selacks (p : Processed) : Option Processed :=
  if pkt.len > 12 ∧ p.xq.queue ≠ [] then (do_selective_ack order pkt (start_scan p)).map (end_scan p) else some p

/-- `do_fack_body` after the selective acknowledgements. -/
def fack_sizes (p : Processed) (snd_frag_size : BitVec 32) : Processed :=
  let set := set_frag_size around p.xq snd_frag_size
  { p with
    xq := { p.xq with snd_frag_size := set.1, window_size := adjust_window p.xq.window_size set.1 }
    failed := p.failed || set.2 }

def do_fack_body (p : Processed) : Option Processed :=
  let p := { p with reads := p.reads ++ [⟨0, 1⟩] }
  if vers pkt ≠ RPC_C_DG_FACKPKT_BODY_VERS then some p
  else
    let p :=
      { p with
        xq := { p.xq with window_size := window_size order pkt }
        reads := p.reads ++ [⟨OFF_WINDOW_SIZE, 2⟩, ⟨OFF_MAX_TSDU, 4⟩, ⟨OFF_MAX_FRAG_SIZE, 4⟩] }
    (fack_selacks order pkt p).map fun q => fack_sizes around q (fack_frag_size order pkt p.xq)

/-- The first loop of `rpc__dg_fack_common`, with what is set before it and the tail after it. -/
def fack_remove (xq : rpc_dg_xmitq_t) : Option Processed :=
  let selacks := using_selacks pkt
  let started : rpc_dg_xmitq_t :=
    { xq with rexmitq := [], last_fack_serial := if selacks then serial_num order pkt else xq.last_fack_serial }
  (remove_loop selacks pkt.fragnum xq.queue
    { xq := started, blast := { curr_serial := xq.last_fack_serial, window_incr := 0 }, freed := [] }).map fun result =>
    { xq := { result.2.xq with queue := result.1, tail := if result.1 = [] then none else result.2.xq.tail }
      freed := result.2.freed
      blast := result.2.blast
      rexmit_cnt := 0
      reads := if selacks then [⟨0, 1⟩, ⟨OFF_SERIAL_NUM, 2⟩] else if pkt.len > 12 then [⟨0, 1⟩] else []
      failed := false }

/-- The size of the next blast as far as the window has room. -/
def next_blast (xq : rpc_dg_xmitq_t) (window_incr : ℕ) : ℕ :=
  let blast_size := max (min (xq.blast_size.toNat + 2 * window_incr) xq.max_blast_size.toNat) 2
  if xq.cwindow_size.toNat + blast_size > xq.window_size.toNat then xq.window_size.toNat - xq.cwindow_size.toNat
  else blast_size

/-- `MIN(++xq->xq_timer_throttle, 1000)`, which increments again the smaller one. -/
def raise_throttle (throttle : BitVec 16) : BitVec 16 := if (throttle + 1).toNat < 1000 then throttle + 2 else 1000

/-- The largest blast is made smaller after a loss. -/
def lower_blast (xq : rpc_dg_xmitq_t) : rpc_dg_xmitq_t :=
  let lowered : rpc_dg_xmitq_t :=
    if xq.max_blast_size.toNat > RPC_C_DG_INITIAL_MAX_BLAST_SIZE.toNat then
      { xq with max_blast_size := xq.max_blast_size - 2, xq_timer_throttle := raise_throttle xq.xq_timer_throttle }
    else xq
  { lowered with xq_timer := lowered.xq_timer_throttle * RPC_C_DG_INITIAL_XQ_TIMER, high_cwindow := 0 }

/-- The largest blast is made larger when the window was not filled. -/
def raise_blast (xq : rpc_dg_xmitq_t) : rpc_dg_xmitq_t :=
  if xq.high_cwindow.toNat < xq.window_size.toNat then
    { xq with
      max_blast_size := BitVec.ofNat 8 (min (xq.max_blast_size.toNat + 2) RPC_C_DG_MAX_BLAST_SIZE.toNat)
      xq_timer := xq.xq_timer_throttle * RPC_C_DG_INITIAL_XQ_TIMER }
  else
    let throttle := raise_throttle xq.xq_timer_throttle
    { xq with xq_timer_throttle := throttle, xq_timer := throttle * RPC_C_DG_INITIAL_XQ_TIMER, high_cwindow := 0 }

def adjust_blast (xq : rpc_dg_xmitq_t) (rexmit_cnt : ℕ) : rpc_dg_xmitq_t :=
  let counted : rpc_dg_xmitq_t :=
    if rexmit_cnt > 0 then lower_blast xq
    else if xq.xq_timer ≠ 0 then { xq with xq_timer := xq.xq_timer - 1 }
    else xq
  if counted.xq_timer = 0 then raise_blast counted else counted

/-- `ready_to_go`: the packets to retransmit and those not yet sent, whose number is the difference of 16-bit fragment numbers
of which one is taken as signed; `none` when there is no first unsent element where the pointer is. -/
def ready_to_go (xq : rpc_dg_xmitq_t) (rexmit_cnt : ℕ) : Option (BitVec 32) :=
  match xq.first_unsent with
  | none => some (BitVec.ofNat 32 rexmit_cnt)
  | some addr =>
    (xq.queue.find? fun xqe => xqe.addr = addr).map fun xqe =>
      BitVec.ofInt 32 (rexmit_cnt + (xq.next_fragnum.toNat - xqe.fragnum.toInt))

/-- The end of `rpc__dg_fack_common`: the size of the next blast. -/
def set_blast (p : Processed) : Option Processed :=
  let blast_size := next_blast p.xq p.blast.window_incr
  let xq := adjust_blast p.xq p.rexmit_cnt
  (ready_to_go xq p.rexmit_cnt).map fun ready =>
    { p with xq := { xq with blast_size := BitVec.ofNat 8 (if ready.toNat < blast_size then ready.toNat else blast_size) } }

/-- `rpc__dg_fack_common`; `none` when it follows a pointer to no element. -/
def rpc__dg_fack_common (xq : rpc_dg_xmitq_t) : Option Processed :=
  ((fack_remove order pkt xq).bind fun p => if pkt.len > 0 then do_fack_body order around pkt p else some p).bind set_blast

end Fack

section Runs

/-- The sender of a call: its transmit queue, where the next fragment will be, the fragments that were appended since the queue
was last emptied and those of them that facks freed; whether a pointer was followed that is to no element, and whether a fack was
read beyond its length. -/
structure Sender where
  xq : rpc_dg_xmitq_t
  next_addr : Addr
  appended : List Addr
  freed : List rpc_dg_xmitq_elt_t
  crashed : Bool
  overread : Bool

/-- What happens to a transmit queue: a filled packet is appended and, when it could be encrypted, the window is started; the
queue is pushed with the partial packet; a blast is sent; the timer expires; the queue is restarted; a fack arrives; the queue is
freed; another call starts. -/
inductive XmitqEvent where
  | append (n_resvs : Option ℕ)
  | push
  | xmit
  | timer
  | restart
  | fack (around : Around) (pkt : rpc_dg_fackpkt_t)
  | free
  | reinit

def Span.within (len : ℕ) (span : Span) : Bool := span.off + span.len ≤ len

/-- The sender after its queue changed, or was not the list that its pointers were taken for. -/
def Sender.with_xq (t : Sender) : Option rpc_dg_xmitq_t → Sender
  | some xq => { t with xq }
  | none => { t with crashed := true }

def Sender.with_appended (t : Sender) (xq : Option rpc_dg_xmitq_t) : Sender :=
  { t.with_xq xq with next_addr := t.next_addr + 1, appended := t.appended ++ [t.next_addr] }

def Sender.with_fack (t : Sender) (len : ℕ) : Option Processed → Sender
  | some p =>
    { t with xq := p.xq, freed := t.freed ++ p.freed, overread := t.overread || !p.reads.all (Span.within len) }
  | none => { t with crashed := true }

def xmitq_step (order : ByteOrder) (t : Sender) : XmitqEvent → Sender
  | .append n_resvs =>
    t.with_appended ((rpc__dg_xmitq_append_pp t.xq (some t.next_addr)).bind fun xq => n_resvs.elim (some xq) (start_window xq))
  | .push => t.with_appended (rpc__dg_call_xmitq_push t.xq (some t.next_addr))
  | .xmit => if t.xq.blast_size > 0 then t.with_xq (rpc__dg_call_xmit t.xq) else t
  | .timer => { t with xq := rpc__dg_call_xmitq_timer t.xq }
  | .restart => { t with xq := rpc__dg_xmitq_restart t.xq }
  | .fack around pkt => t.with_fack pkt.len.toNat (rpc__dg_fack_common order around pkt t.xq)
  | .free => { t with xq := rpc__dg_xmitq_free t.xq, appended := [], freed := [] }
  | .reinit => { t with xq := { rpc__dg_xmitq_reinit t.xq with frag := false }, appended := [], freed := [] }

/-- The sender of a call, until it crashes. Its fragments are numbered from any number on. -/
def xmitqSystem (order : ByteOrder) : System Sender XmitqEvent where
  init t :=
    ∃ next_fragnum max_snd_tsdu max_frag_size snd_frag_size, snd_frag_size ≠ 0 ∧
      t =
        { xq := { rpc__dg_xmitq_init with next_fragnum, max_snd_tsdu, max_frag_size, snd_frag_size }
          next_addr := 1
          appended := []
          freed := []
          crashed := false
          overread := false }
  step t e := if t.crashed then none else some (xmitq_step order t e)

end Runs

end dce.rpc.xmitq
