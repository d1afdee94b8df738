import Dce.Lib.ByteOrder
import Dce.Lib.SerialNumbers
import Dce.Lib.System

open lib

set_option linter.style.nameCheck false

namespace dce.rpc.xmitq

abbrev Addr := ℕ

/-- `rpc_dg_xmitq_elt_t`: a fragment. `no_fack` and `last_frag` are bits of its flags; `was_sent` is not in the source, it says
that the fragment was transmitted at least once. -/
structure rpc_dg_xmitq_elt_t where
  addr : Addr
  fragnum : BitVec 16
  serial_num : BitVec 16
  no_fack : Bool
  last_frag : Bool
  in_cwindow : Bool
  was_sent : Bool
  deriving DecidableEq

/-- `rpc_dg_xmitq_t`: `queue` is the list that the links from the head form, `rexmitq` the one that the links of the
retransmission queue form. `frag` is a bit of the base flags. -/
structure rpc_dg_xmitq_t where
  queue : List rpc_dg_xmitq_elt_t
  first_unsent : Option Addr
  tail : Option Addr
  rexmitq : List Addr
  frag : Bool
  next_fragnum : BitVec 16
  next_serial_num : BitVec 16
  last_fack_serial : BitVec 16
  window_size : BitVec 16
  cwindow_size : BitVec 16
  max_snd_tsdu : BitVec 32
  max_frag_size : BitVec 32
  snd_frag_size : BitVec 32
  blast_size : BitVec 8
  max_blast_size : BitVec 8
  xq_timer : BitVec 16
  xq_timer_throttle : BitVec 16
  high_cwindow : BitVec 8
  freqs_out : BitVec 8
  push : Bool
  deriving DecidableEq

def RPC_C_DG_INITIAL_WINDOW_SIZE : BitVec 16 := 8
def RPC_C_DG_INITIAL_BLAST_SIZE : ℕ := 2
def RPC_C_DG_INITIAL_MAX_BLAST_SIZE : BitVec 8 := 4
def RPC_C_DG_MAX_BLAST_SIZE : BitVec 8 := 8
def RPC_C_DG_INITIAL_XQ_TIMER : BitVec 16 := 8
def RPC_C_DG_INITIAL_MAX_PKT_SIZE : BitVec 32 := 1024

section Queue

def rpc__dg_xmitq_reinit (xq : rpc_dg_xmitq_t) : rpc_dg_xmitq_t :=
  { xq with
    queue := []
    first_unsent := none
    tail := none
    rexmitq := []
    next_fragnum := 0
    next_serial_num := 0
    last_fack_serial := -1
    cwindow_size := 0
    window_size := RPC_C_DG_INITIAL_WINDOW_SIZE
    blast_size := 0
    freqs_out := 0
    push := false }

def rpc__dg_xmitq_init : rpc_dg_xmitq_t where
  queue := []
  first_unsent := none
  tail := none
  rexmitq := []
  frag := false
  next_fragnum := 0
  next_serial_num := 0
  last_fack_serial := -1
  window_size := RPC_C_DG_INITIAL_WINDOW_SIZE
  cwindow_size := 0
  max_snd_tsdu := RPC_C_DG_INITIAL_MAX_PKT_SIZE
  max_frag_size := RPC_C_DG_INITIAL_MAX_PKT_SIZE
  snd_frag_size := RPC_C_DG_INITIAL_MAX_PKT_SIZE
  blast_size := 0
  max_blast_size := RPC_C_DG_INITIAL_MAX_BLAST_SIZE
  xq_timer := RPC_C_DG_INITIAL_XQ_TIMER
  xq_timer_throttle := 1
  high_cwindow := 0
  freqs_out := 0
  push := false

/-- `rpc__dg_xmitq_free`, all of whose elements are freed. -/
def rpc__dg_xmitq_free (xq : rpc_dg_xmitq_t) : rpc_dg_xmitq_t :=
  { xq with queue := [], first_unsent := none, tail := none, rexmitq := [], blast_size := 0 }

/-- A fragment that is filled, with the number that it gets. -/
def filled (addr : Addr) (fragnum : BitVec 16) : rpc_dg_xmitq_elt_t where
  addr
  fragnum
  serial_num := 0
  no_fack := false
  last_frag := false
  in_cwindow := false
  was_sent := false

/-- `rpc__dg_xmitq_append_pp` on the partial packet, if there is one at an address; `none` when the tail is not the last element,
so that the link is written elsewhere. -/
def rpc__dg_xmitq_append_pp (xq : rpc_dg_xmitq_t) : Option Addr → Option rpc_dg_xmitq_t
  | none => some xq
  | some part_xqe =>
    let appended : rpc_dg_xmitq_t :=
      { xq with
        queue := xq.queue ++ [filled part_xqe xq.next_fragnum]
        tail := some part_xqe
        next_fragnum := xq.next_fragnum + 1
        frag := xq.frag || !xq.push }
    if xq.queue = [] then some { appended with first_unsent := some part_xqe }
    else if xq.tail = xq.queue.getLast?.map (·.addr) then
      some { appended with first_unsent := if xq.first_unsent = none then some part_xqe else xq.first_unsent }
    else none

def next_of : List rpc_dg_xmitq_elt_t → Addr → Option Addr
  | [], _ => none
  | xqe :: rest, addr => if xqe.addr = addr then rest.head?.map (·.addr) else next_of rest addr

def update_at (queue : List rpc_dg_xmitq_elt_t) (addr : Addr) (f : rpc_dg_xmitq_elt_t → rpc_dg_xmitq_elt_t) :
    List rpc_dg_xmitq_elt_t :=
  queue.map fun xqe => if xqe.addr = addr then f xqe else xqe

def rpc_dg_xmitq_t.has (xq : rpc_dg_xmitq_t) (addr : Addr) : Prop := addr ∈ xq.queue.map (·.addr)

instance (xq : rpc_dg_xmitq_t) (addr : Addr) : Decidable (xq.has addr) := by
  unfold rpc_dg_xmitq_t.has
  infer_instance

end Queue

section Transmit

def window_size_to_freqs_out : List (BitVec 8) := [0, 1, 2, 2, 2, 3, 3, 3, 3, 3, 4, 4, 4, 4, 4, 4, 4]

/-- The number of outstanding fack requests that a window is to have. -/
def freqs_total (window_size : BitVec 16) : BitVec 8 :=
  if window_size > 16 then (window_size / 4).setWidth 8 else (window_size_to_freqs_out[window_size.toNat]?).getD 0

/-- The packet of a blast that asks for a fack besides the last one. -/
def extra_fack (xq : rpc_dg_xmitq_t) : ℕ :=
  if (freqs_total xq.window_size).toNat > xq.freqs_out.toNat + 1 then xq.blast_size.toNat / 2 else 0

def asks_fack (xq : rpc_dg_xmitq_t) (blast_size extra_fack num_sent : ℕ) : Bool :=
  !xq.frag || num_sent = extra_fack || num_sent = blast_size

/-- A packet that is transmitted, with the flag that it asks for a fack or not. -/
def transmitted (xq : rpc_dg_xmitq_t) (asks : Bool) (xqe : rpc_dg_xmitq_elt_t) : rpc_dg_xmitq_elt_t :=
  { xqe with
    no_fack := if xq.frag then !asks else xqe.no_fack
    in_cwindow := true
    serial_num := xq.next_serial_num
    was_sent := true }

/-- The packet of a blast with the given count is transmitted. -/
def xmit_elt (blast_size extra_fack num_sent : ℕ) (xq : rpc_dg_xmitq_t) (addr : Addr) : rpc_dg_xmitq_t :=
  let asks := asks_fack xq blast_size extra_fack num_sent
  { xq with
    queue := update_at xq.queue addr (transmitted xq asks)
    freqs_out := if asks then xq.freqs_out + 1 else xq.freqs_out
    next_serial_num := xq.next_serial_num + 1 }

/-- The loop of `rpc__dg_call_xmit` with the packets that it may still send, first from the retransmission queue and then from
the first unsent one on. It ends with the packets that it did not send, or with a pointer to no element of the queue. -/
def xmit_loop (blast_size extra_fack : ℕ) : ℕ → List Addr → rpc_dg_xmitq_t → Option (rpc_dg_xmitq_t × ℕ)
  | 0, _, xq => some (xq, 0)
  | n + 1, addr :: rexmitq, xq =>
    if xq.has addr then xmit_loop blast_size extra_fack n rexmitq (xmit_elt blast_size extra_fack (blast_size - n) xq addr)
    else none
  | n + 1, [], xq =>
    match xq.first_unsent with
    | none => some (xq, n + 1)
    | some addr =>
      if xq.has addr then
        let xq := xmit_elt blast_size extra_fack (blast_size - n) xq addr
        xmit_loop blast_size extra_fack n [] { xq with first_unsent := next_of xq.queue addr }
      else none

/-- The end of a blast of which some packets were sent. -/
def end_blast (xq : rpc_dg_xmitq_t) (sent : ℕ) : rpc_dg_xmitq_t :=
  let cwindow_size := xq.cwindow_size + BitVec.ofNat 16 sent
  { xq with
    cwindow_size
    high_cwindow := if cwindow_size.toNat > xq.high_cwindow.toNat then cwindow_size.setWidth 8 else xq.high_cwindow
    rexmitq := []
    blast_size := 0 }

/-- `rpc__dg_call_xmit`, on a socket that is not disabled. -/
def rpc__dg_call_xmit (xq : rpc_dg_xmitq_t) : Option rpc_dg_xmitq_t :=
  let blast_size := xq.blast_size.toNat
  (xmit_loop blast_size (extra_fack xq) blast_size xq.rexmitq xq).map fun result => end_blast result.1 (blast_size - result.2)

/-- The counts once a packet is no longer outstanding. `or_last` says that a last fragment counts as one that asks for a fack. -/
def uncount (or_last : Bool) (xq : rpc_dg_xmitq_t) (xqe : rpc_dg_xmitq_elt_t) : rpc_dg_xmitq_t :=
  if xqe.in_cwindow then
    { xq with
      cwindow_size := xq.cwindow_size - 1
      freqs_out := if !xqe.no_fack || (or_last && xqe.last_frag) then xq.freqs_out - 1 else xq.freqs_out }
  else xq

def leave_window (xqe : rpc_dg_xmitq_elt_t) : rpc_dg_xmitq_elt_t := { xqe with in_cwindow := false }

/-- `rpc__dg_call_xmitq_timer` when it is time to retransmit. -/
def rpc__dg_call_xmitq_timer (xq : rpc_dg_xmitq_t) : rpc_dg_xmitq_t :=
  match xq.queue with
  | [] => xq
  | xqe :: rest =>
    { uncount true xq xqe with
      queue := leave_window xqe :: rest
      rexmitq := if xq.first_unsent ≠ some xqe.addr then [xqe.addr] else xq.rexmitq
      blast_size := 1 }

/-- `rpc__dg_xmitq_restart`: a queue that is ready to send is left alone. -/
def rpc__dg_xmitq_restart (xq : rpc_dg_xmitq_t) : rpc_dg_xmitq_t :=
  if xq.blast_size > 0 then xq
  else
    let sent := xq.queue.takeWhile fun xqe => some xqe.addr ≠ xq.first_unsent
    let unsent := xq.queue.dropWhile fun xqe => some xqe.addr ≠ xq.first_unsent
    let rexmit_cnt := if sent = [] ∧ xq.first_unsent ≠ none then 1 else sent.length
    { sent.foldl (uncount true) xq with
      queue := sent.map leave_window ++ unsent
      rexmitq := if sent = [] then xq.rexmitq else sent.map (·.addr)
      blast_size := BitVec.ofNat 8 (min rexmit_cnt RPC_C_DG_INITIAL_BLAST_SIZE) }

/-- The start of the window in `rpc__dg_call_transmit_int`, after a fragment was appended. -/
def start_window (xq : rpc_dg_xmitq_t) (n_resvs : ℕ) : Option rpc_dg_xmitq_t :=
  if xq.freqs_out = 0 then
    if n_resvs < 2 then rpc__dg_call_xmit { xq with blast_size := 1 }
    else if xq.queue.head?.map (·.addr) ≠ xq.tail then rpc__dg_call_xmit { xq with blast_size := 2 }
    else some xq
  else some xq

/-- `rpc__dg_call_xmitq_push` up to its loop: the partial packet is appended. -/
def rpc__dg_call_xmitq_push (xq : rpc_dg_xmitq_t) (part_xqe : Option Addr) : Option rpc_dg_xmitq_t :=
  let blast_size := if xq.queue = [] then 1 else if xq.freqs_out = 0 then 2 else xq.blast_size
  rpc__dg_xmitq_append_pp { xq with blast_size, push := true } part_xqe

end Transmit

end dce.rpc.xmitq
