import Dce.Lib.SerialNumbers
import Dce.Lib.System

open lib

set_option linter.style.nameCheck false

namespace dce.rpc.sct

/-- An activity id, as the four words over which it is hashed. -/
structure actuid_t where
  lp0 : BitVec 32
  lp1 : BitVec 32
  lp2 : BitVec 32
  lp3 : BitVec 32
  deriving DecidableEq

def rpc__dg_uuid_hash (uuid : actuid_t) : BitVec 16 :=
  let hash := uuid.lp0 ^^^ uuid.lp1 ^^^ uuid.lp2 ^^^ uuid.lp3
  (hash >>> 16 ^^^ hash).setWidth 16

inductive rpc_dg_call_state_t where
  | init
  | xmit
  | recv
  | final
  | idle
  | orphan
  deriving DecidableEq

def rpc_dg_call_state_t.in_progress : rpc_dg_call_state_t → Bool
  | init | recv | xmit => true
  | final | idle | orphan => false

/-- `rpc_dg_pkt_hdr_t`: what a server looks at in the header of a request to find its call. `if_is_convc` compares the
interface with that of the `convc` manager. -/
structure rpc_dg_pkt_hdr_t where
  actuid : actuid_t
  ahint : BitVec 16
  seq : BitVec 32
  fragnum : BitVec 16
  server_boot : BitVec 32
  if_is_convc : Bool
  idempotent : Bool
  maybe : Bool
  forwarded : Bool
  forwarded_2 : Bool
  deriving DecidableEq

/-- `rpc_dg_scall_t`: a server call handle. -/
structure rpc_dg_scall_t where
  call_seq : BitVec 32
  state : rpc_dg_call_state_t
  call_is_setup : Bool
  has_call_executor_ref : Bool
  call_is_queued : Bool
  client_needs_sboot : Bool
  fwd2_rqe : Option rpc_dg_pkt_hdr_t
  deriving DecidableEq

/-- `rpc_dg_sct_elt_t`: an entry of the server connection table. `scall` is the handle of the current or last call,
`maybe_chain` the list that the links from its head form. `callbacks` counts the references of executors that asked the
client for its sequence number. -/
structure rpc_dg_sct_elt_t where
  actid : actuid_t
  ahint : BitVec 16
  high_seq : BitVec 32
  high_seq_is_way_validated : Bool
  refcnt : ℕ
  scall : Option rpc_dg_scall_t
  maybe_chain : List rpc_dg_scall_t
  callbacks : ℕ
  deriving DecidableEq

/-- Where an entry has a call handle. An orphaned one is no longer in its entry. -/
inductive Place where
  | cached
  | maybe_chain (i : ℕ)
  | nowhere
  deriving DecidableEq

namespace rpc_dg_sct_elt_t

variable (scte : rpc_dg_sct_elt_t)

def call : Place → Option rpc_dg_scall_t
  | .cached => scte.scall
  | .maybe_chain i => scte.maybe_chain[i]?
  | .nowhere => none

/-- The entry with another call handle at a place that it has. -/
def store (scall : rpc_dg_scall_t) : Place → rpc_dg_sct_elt_t
  | .cached => { scte with scall := some scall }
  | .maybe_chain i => { scte with maybe_chain := scte.maybe_chain.set i scall }
  | .nowhere => scte

/-- `release_scall_from_scte`, with the reference that the call handle had to the entry. -/
def release : Place → rpc_dg_sct_elt_t
  | .cached => { scte with scall := none, refcnt := scte.refcnt - 1 }
  | .maybe_chain i => { scte with maybe_chain := scte.maybe_chain.eraseIdx i, refcnt := scte.refcnt - 1 }
  | .nowhere => scte

/-- `RPC_DG_SCT_REFERENCE`. -/
def reference : rpc_dg_sct_elt_t := { scte with refcnt := scte.refcnt + 1 }

/-- `RPC_DG_SCT_RELEASE`. -/
def unreference : rpc_dg_sct_elt_t := { scte with refcnt := scte.refcnt - 1 }

end rpc_dg_sct_elt_t

section Table

abbrev RPC_DG_SCT_SIZE : ℕ := 101

def RPC_DG_SCT_REFCNT_MAX : ℕ := 255

abbrev Probe := Fin RPC_DG_SCT_SIZE

/-- `rpc_g_dg_sct`: the chains of entries. -/
abbrev Sct := Probe → List rpc_dg_sct_elt_t

abbrev Spot := Probe × ℕ

def hash_probe (actid : actuid_t) : Probe := Fin.ofNat RPC_DG_SCT_SIZE (rpc__dg_uuid_hash actid).toNat

/-- The chain that a hint leads to; `RPC_C_DG_NO_HINT` is beyond the table. -/
def probe_of (actid : actuid_t) (probe_hint : ℕ) : Probe :=
  if h : probe_hint < RPC_DG_SCT_SIZE then ⟨probe_hint, h⟩ else hash_probe actid

variable (sct : Sct)

def Sct.entry (spot : Spot) : Option rpc_dg_sct_elt_t := (sct spot.1)[spot.2]?

def Sct.set (spot : Spot) (scte : rpc_dg_sct_elt_t) : Sct := Function.update sct spot.1 ((sct spot.1).set spot.2 scte)

def scan (actid : actuid_t) (probe : Probe) : Option Spot :=
  ((sct probe).findIdx? fun scte => scte.actid = actid).map fun i => (probe, i)

/-- `rpc__dg_sct_lookup`, without the reference to the entry that it found. -/
def rpc__dg_sct_lookup (actid : actuid_t) (probe_hint : ℕ) : Option Spot :=
  let probe := probe_of actid probe_hint
  match scan sct actid probe with
  | some spot => some spot
  | none =>
    if probe.val = probe_hint ∧ (hash_probe actid).val ≠ probe_hint then scan sct actid (hash_probe actid) else none

/-- The entry that is created for a request with the given sequence number. -/
def new_scte (actid : actuid_t) (ahint : BitVec 16) (seq : BitVec 32) : rpc_dg_sct_elt_t where
  actid
  ahint
  high_seq := seq - 1
  high_seq_is_way_validated := false
  refcnt := 1
  scall := none
  maybe_chain := []
  callbacks := 0

/-- `rpc__dg_sct_get`, without the reference to the entry that it returns. -/
def rpc__dg_sct_get (actid : actuid_t) (probe_hint : ℕ) (seq : BitVec 32) (alloc : Bool) : Sct × Option Spot :=
  let probe := probe_of actid probe_hint
  match rpc__dg_sct_lookup sct actid probe.val with
  | some spot => (sct, some spot)
  | none =>
    if alloc then
      (Function.update sct probe (new_scte actid (BitVec.ofNat 16 probe.val) seq :: sct probe), some (probe, 0))
    else (sct, none)

end Table

section Calls

variable (scte : rpc_dg_sct_elt_t) (hdr : rpc_dg_pkt_hdr_t)

def scan_maybe_chain (seq : BitVec 32) : Option (Place × rpc_dg_scall_t) :=
  (scte.maybe_chain.findIdx? fun temp => temp.call_seq = seq).bind fun i =>
    (scte.maybe_chain[i]?).map fun temp => (.maybe_chain i, temp)

def rpc__dg_sct_inq_scall (cur_rqe_seq : BitVec 32) : Option (Place × rpc_dg_scall_t) :=
  match scte.scall with
  | some scall =>
    if serialLe scall.call_seq cur_rqe_seq then
      -- a call that was backed out represents no useful state
      if scall.call_seq ≠ scte.high_seq then none else some (.cached, scall)
    else scan_maybe_chain scte cur_rqe_seq
  | none => scan_maybe_chain scte cur_rqe_seq

/-- `rpc__dg_scall_reinit`, what concerns the call handle. -/
def rpc__dg_scall_reinit (scall : rpc_dg_scall_t) : rpc_dg_scall_t :=
  { scall with
    call_seq := hdr.seq
    state := .init
    call_is_setup := false
    has_call_executor_ref := false
    call_is_queued := false
    client_needs_sboot := false }

/-- The handle of a new call, before `rpc__dg_scall_reinit`. -/
def scall_init : rpc_dg_scall_t where
  call_seq := 0
  state := .init
  call_is_setup := false
  has_call_executor_ref := false
  call_is_queued := false
  client_needs_sboot := false
  fwd2_rqe := none

abbrev Given := rpc_dg_sct_elt_t × Place × rpc_dg_scall_t

/-- A call handle is used for another call. A maybe call moves the cached one to the maybe chain. -/
def reuse (place : Place) (scall : rpc_dg_scall_t) : Given :=
  let scall := rpc__dg_scall_reinit hdr scall
  if hdr.maybe ∧ place = .cached then
    ({ scte with maybe_chain := scall :: scte.maybe_chain, scall := none }, .maybe_chain 0, scall)
  else (scte.store scall place, place, scall)

/-- `rpc__dg_scall_alloc`, when there is memory. -/
def rpc__dg_scall_alloc : Given :=
  let scall := rpc__dg_scall_reinit hdr scall_init
  if hdr.maybe then
    ({ scte.reference with maybe_chain := scall :: scte.maybe_chain }, .maybe_chain 0, scall)
  else ({ scte.reference with scall := some scall }, .cached, scall)

def usable_scall : Option (Place × rpc_dg_scall_t) :=
  scte.scall.bind fun scall => if hdr.maybe ∧ serialLt hdr.seq scall.call_seq then none else some (.cached, scall)

/-- The handle for a new call, reused or allocated. -/
def materialize (alloc : Bool) (scallp : Option (Place × rpc_dg_scall_t)) : Option Given :=
  match scallp.or (usable_scall scte hdr) with
  | some (place, scall) => some (reuse scte hdr place scall)
  | none => if alloc then some (rpc__dg_scall_alloc scte hdr) else none

/-- The check on the sequence number of a new call that makes the server abort. -/
def invalid_seqnum (given : Given) : Prop := serialLt given.2.2.call_seq given.1.high_seq ∧ !hdr.maybe

instance (given : Given) : Decidable (invalid_seqnum hdr given) := by
  unfold invalid_seqnum
  infer_instance

def raise_high_seq (given : Given) : rpc_dg_sct_elt_t :=
  { given.1 with
    high_seq :=
      if !hdr.maybe ∨ serialLt given.1.high_seq given.2.2.call_seq then given.2.2.call_seq else given.1.high_seq }

/-- What `rpc__dg_sct_new_call` does: it aborts, it fails for lack of memory, or there is a handle for the call. -/
inductive NewCall where
  | aborted
  | failed
  | accepted (given : Given)

def rpc__dg_sct_new_call (alloc : Bool) (scallp : Option (Place × rpc_dg_scall_t)) : NewCall :=
  match materialize scte hdr alloc scallp with
  | none => .failed
  | some given =>
    if invalid_seqnum hdr given then .aborted else .accepted (raise_high_seq hdr given, given.2)

def rpc__dg_sct_backout_new_call (seq : BitVec 32) : rpc_dg_sct_elt_t :=
  if seq = scte.high_seq then { scte with high_seq := scte.high_seq - 1 } else scte

/-- `rpc__dg_scall_orphan_call` on a call that an entry has. A call that was queued is taken from the queue. -/
def rpc__dg_scall_orphan_call (place : Place) (scall : rpc_dg_scall_t) : Given :=
  if scall.state = .orphan then (scte, place, scall)
  else
    (scte.release place, .nowhere,
      { scall with state := .orphan, has_call_executor_ref := scall.has_call_executor_ref && !scall.call_is_queued })

end Calls

section Requests

inductive do_req_enum_t where
  | old
  | cur_call
  | orphan_cur_call
  | new_call
  | ping
  | non_idem_rerun
  deriving DecidableEq

def do_request_common (cur_call_seq : BitVec 32) (cur_call_state : rpc_dg_call_state_t) (hdr : rpc_dg_pkt_hdr_t) :
    do_req_enum_t :=
  if hdr.seq = cur_call_seq then
    match cur_call_state with
    | .idle => if !hdr.idempotent then (if hdr.fragnum ≠ 0 then .old else .non_idem_rerun) else .new_call
    | .final => .ping
    | .init | .recv => .cur_call
    | .xmit | .orphan => .old
  else if serialLt cur_call_seq hdr.seq then
    match cur_call_state with
    | .idle | .final => .new_call
    | .init | .recv | .xmit => .orphan_cur_call
    | .orphan => if hdr.maybe then .new_call else .old
  else if hdr.maybe then .new_call
  else .old

/-- The status of `rpc__cthread_invoke_null`. -/
inductive Invoked where
  | ok
  | call_queued
  | no_executors
  deriving DecidableEq

/-- What the processing of a request depends on around it: whether there is memory for an entry and for a call handle, and for
an executor. -/
structure Around where
  scte_alloc : Bool
  scall_alloc : Bool
  invoked : Invoked
  deriving DecidableEq

/-- What the filter makes of a request: a reject is sent, the packet is dropped, or it goes to a call, which is a new one or
not. -/
inductive Disposition where
  | rejected
  | dropped
  | taken (place : Place) (scall : rpc_dg_scall_t) (is_new : Bool)

variable (hdr : rpc_dg_pkt_hdr_t) (around : Around)

/-- A new call in the processing of a request; `none` if the server aborts. -/
def take_new_call (scte : rpc_dg_sct_elt_t) (scallp : Option (Place × rpc_dg_scall_t)) :
    Option (rpc_dg_sct_elt_t × Disposition) :=
  match rpc__dg_sct_new_call scte hdr around.scall_alloc scallp with
  | .aborted => none
  | .failed => some (scte, .dropped)
  | .accepted (scte, place, scall) => some (scte, .taken place scall true)

/-- The state that a request is filtered by: that of the call found, or idle. -/
def found_state (scallp : Option (Place × rpc_dg_scall_t)) : rpc_dg_call_state_t :=
  (scallp.map fun found => found.2.state).getD .idle

/-- The filter of `rpc__dg_do_request` on the call that was found; `none` if the server aborts. -/
def filter_found (scte : rpc_dg_sct_elt_t) (scallp : Option (Place × rpc_dg_scall_t)) :
    Option (rpc_dg_sct_elt_t × Disposition) :=
  match do_request_common scte.high_seq (found_state scallp) hdr, scallp with
  | .old, _ => some (scte, .dropped)
  | .cur_call, some (place, scall) => some (scte, .taken place scall false)
  | .orphan_cur_call, some (place, scall) =>
    let orphaned := rpc__dg_scall_orphan_call scte place scall
    if !hdr.maybe then some (orphaned.1, .dropped) else take_new_call hdr around orphaned.1 (some orphaned.2)
  | .new_call, _ => take_new_call hdr around scte scallp
  | .ping, _ => some (scte, .dropped)
  | .non_idem_rerun, _ => some (scte, .rejected)
  -- these two only come up when a call in progress was found
  | .cur_call, none => some (scte, .dropped)
  | .orphan_cur_call, none => some (scte, .dropped)

/-- The filter of `rpc__dg_do_request`. -/
def filter_request (scte : rpc_dg_sct_elt_t) : Option (rpc_dg_sct_elt_t × Disposition) :=
  filter_found hdr around scte (rpc__dg_sct_inq_scall scte hdr.seq)

/-- The packet is the second half of one that is forwarded in two. -/
def is_second_half (scall : rpc_dg_scall_t) : Bool :=
  scall.fwd2_rqe.any fun first =>
    !hdr.forwarded && hdr.actuid = first.actuid && hdr.seq = first.seq && hdr.fragnum = first.fragnum

/-- The call handle once the packet has reached it: what it waits for from its client, and the first half that it lost. -/
def note_request (scall : rpc_dg_scall_t) : rpc_dg_scall_t :=
  { scall with
    client_needs_sboot := hdr.server_boot = 0
    fwd2_rqe := if is_second_half hdr scall then none else scall.fwd2_rqe }

/-- What becomes of a packet that reached its call: it is stashed as a first half, it goes to the receive queue, or nobody can
execute the call. -/
inductive Reached where
  | stashed
  | queued
  | backed_out
  deriving DecidableEq

/-- `rpc__dg_do_request` on the call of the packet, up to its receive queue. -/
def reach_call (scte : rpc_dg_sct_elt_t) (place : Place) (scall : rpc_dg_scall_t) : rpc_dg_sct_elt_t × Reached :=
  let scall := note_request hdr scall
  if hdr.forwarded_2 then (scte.store { scall with fwd2_rqe := some hdr } place, .stashed)
  else if scall.call_is_setup then (scte.store scall place, .queued)
  else
    let scall := { scall with state := .recv, call_is_setup := true, has_call_executor_ref := true }
    match around.invoked with
    | .ok => (scte.store scall place, .queued)
    | .call_queued => (scte.store { scall with call_is_queued := true } place, .queued)
    | .no_executors =>
      let stored := scte.store { scall with state := .idle, has_call_executor_ref := false } place
      -- an orphaned call has no entry
      (if place = .nowhere then stored else rpc__dg_sct_backout_new_call stored hdr.seq, .backed_out)

/-- What a server says and does about the calls of its clients. -/
inductive Event where
  | accepted (actid : actuid_t) (seq : BitVec 32)
  | unaccepted (actid : actuid_t) (seq : BitVec 32)
  | rejected (actid : actuid_t) (seq : BitVec 32)
  deriving DecidableEq

/-- What is done with a packet that was filtered, with the events, newest first. -/
def dispose (scte : rpc_dg_sct_elt_t) : Disposition → rpc_dg_sct_elt_t × List Event
  | .rejected => (scte, [.rejected hdr.actuid hdr.seq])
  | .dropped => (scte, [])
  | .taken place scall is_new =>
    let reached := reach_call hdr around scte place scall
    (reached.1,
      (if reached.2 = .backed_out then [.unaccepted hdr.actuid hdr.seq] else []) ++
        if is_new then [.accepted hdr.actuid hdr.seq] else [])

/-- `rpc__dg_do_request` on the entry of the packet. -/
def request_to (scte : rpc_dg_sct_elt_t) : Option (rpc_dg_sct_elt_t × List Event) :=
  (filter_request hdr around scte).map fun filtered => dispose hdr around filtered.1 filtered.2

/-- `rpc__dg_do_request` on a server socket; `none` if the server aborts. -/
def rpc__dg_do_request (boot_time : BitVec 32) (sct : Sct) : Option (Sct × List Event) :=
  -- rpc__dg_svr_chk_and_set_sboot
  if hdr.server_boot ≠ 0 ∧ hdr.server_boot ≠ boot_time then some (sct, [])
  else if hdr.if_is_convc then some (sct, [])
  else
    let got := rpc__dg_sct_get sct hdr.actuid hdr.ahint.toNat hdr.seq around.scte_alloc
    match got.2 with
    | none => some (sct, [])
    | some spot =>
      (got.1.entry spot).bind fun scte =>
        if scte.reference.refcnt > RPC_DG_SCT_REFCNT_MAX - 5 then some (got.1, [])
        else
          (request_to hdr around scte.reference).map fun done => (got.1.set spot done.1.unreference, done.2)

end Requests

section Callbacks

variable (scte : rpc_dg_sct_elt_t)

def RPC_DG_SCT_IS_WAY_VALIDATED : Bool :=
  scte.high_seq_is_way_validated && scte.scall.any fun scall => !scall.client_needs_sboot

/-- `rpc__dg_sct_way_validate` up to the call-back: there is none without a call handle, and without need. -/
def way_start (force_way_auth : Bool) : Option rpc_dg_sct_elt_t :=
  if RPC_DG_SCT_IS_WAY_VALIDATED scte ∧ !force_way_auth then none
  else if scte.scall.isNone then none
  else some { scte.reference with callbacks := scte.callbacks + 1 }

/-- `rpc__dg_sct_way_validate` once the call-back came back. -/
def way_end : Option rpc_dg_sct_elt_t :=
  if scte.callbacks = 0 then none else some { scte.unreference with callbacks := scte.callbacks - 1 }

/-- `rpc__dg_sct_way_validate` after the client told its sequence number. -/
def rpc__dg_sct_way_validate (seq : BitVec 32) : rpc_dg_sct_elt_t :=
  { scte with
    high_seq := if ¬ serialLt seq scte.high_seq then seq else scte.high_seq
    high_seq_is_way_validated := true
    scall := scte.scall.map fun scall => { scall with client_needs_sboot := false } }

/-- The states that an executor, the timer and the acknowledgement of a client take a call to. An executor also ends a call
whose sequence number the connection no longer has. -/
def leads_to : rpc_dg_call_state_t → rpc_dg_call_state_t → Bool
  | .recv, .xmit | .recv, .final | .recv, .idle => true
  | .xmit, .final | .xmit, .idle => true
  | .final, .idle => true
  | .init, .idle => true
  | _, _ => false

end Callbacks

section Runs

/-- The connections of a server, and what it said and did about their calls, newest first. -/
structure Server where
  rpc_g_dg_sct : Sct
  history : List Event

/-- What happens to a server: a request arrives, an executor calls its client back and has an answer or none, a call goes on,
is orphaned or no longer cached, an entry gets too old. -/
inductive Step where
  | request (hdr : rpc_dg_pkt_hdr_t) (around : Around)
  | way_started (spot : Spot) (force_way_auth : Bool)
  | way_answered (spot : Spot) (seq : BitVec 32)
  | way_failed (spot : Spot)
  | moved (spot : Spot) (place : Place) (state : rpc_dg_call_state_t)
  | orphaned (spot : Spot) (place : Place)
  | uncached (spot : Spot) (place : Place)
  | aged (spot : Spot)
  deriving DecidableEq

def Server.on (t : Server) (spot : Spot) (f : rpc_dg_sct_elt_t → Option rpc_dg_sct_elt_t) : Option Server :=
  ((t.rpc_g_dg_sct.entry spot).bind f).map fun scte => { t with rpc_g_dg_sct := t.rpc_g_dg_sct.set spot scte }

/-- An entry that only the table refers to is freed once it has not been used for a while. -/
def Server.age (t : Server) (spot : Spot) : Option Server :=
  ((t.rpc_g_dg_sct.entry spot).filter fun scte => scte.refcnt = 1).map fun _ =>
    { t with rpc_g_dg_sct := Function.update t.rpc_g_dg_sct spot.1 ((t.rpc_g_dg_sct spot.1).eraseIdx spot.2) }

/-- One step of a server that was booted at the given time. -/
def step (boot_time : BitVec 32) (t : Server) : Step → Option Server
  | .request hdr around =>
    (rpc__dg_do_request hdr around boot_time t.rpc_g_dg_sct).map fun done =>
      { rpc_g_dg_sct := done.1, history := done.2 ++ t.history }
  | .way_started spot force_way_auth => t.on spot fun scte => way_start scte force_way_auth
  | .way_answered spot seq => t.on spot fun scte => (way_end scte).map fun scte => rpc__dg_sct_way_validate scte seq
  | .way_failed spot => t.on spot way_end
  | .moved spot place state =>
    t.on spot fun scte =>
      ((scte.call place).filter fun scall => leads_to scall.state state).map fun scall =>
        scte.store { scall with state } place
  | .orphaned spot place =>
    t.on spot fun scte => (scte.call place).map fun scall => (rpc__dg_scall_orphan_call scte place scall).1
  | .uncached spot place =>
    t.on spot fun scte => ((scte.call place).filter fun scall => scall.state = .idle).map fun _ => scte.release place
  | .aged spot => t.age spot

def sctSystem (boot_time : BitVec 32) : System Server Step where
  init t := t = { rpc_g_dg_sct := fun _ => [], history := [] }
  step := step boot_time

end Runs

end dce.rpc.sct
