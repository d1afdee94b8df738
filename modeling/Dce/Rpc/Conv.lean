import Dce.Rpc.Uuid

open lib

set_option linter.style.nameCheck false

namespace dce.rpc.conv

/-- The statuses that the conversation manager answers with; any other one comes from the security service. -/
inductive error_status_t where
  | rpc_s_ok
  | nca_s_bad_actid
  | nca_s_you_crashed
  | rpc_s_binding_has_no_auth
  | rpc_s_partial_credentials
  | rpc_s_auth_badorder
  | rpc_s_invalid_credentials
  | rpc_s_authn_challenge_malformed
  | rpc_s_key_id_not_found
  | rpc_s_no_memory
  | other (code : BitVec 32)
  deriving DecidableEq

open error_status_t

/-- `rpc_dg_pkt_hdr_t`: what a conversation callback looks at, after its bytes are swapped. -/
structure rpc_dg_pkt_hdr_t where
  drep : ByteOrder
  if_vers : BitVec 32
  opnum : BitVec 16
  len : BitVec 16

/-- `rpc_dg_recvq_elt_t`: the header of a packet and the memory from the start of its body. -/
structure rpc_dg_recvq_elt_t where
  hdrp : rpc_dg_pkt_hdr_t
  args : ℤ → Byte

/-- `sec_krb_message`: credentials in memory, where no object takes half of the addresses. -/
structure sec_krb_message where
  data : List Byte
  length_lt : data.length < 2 ^ 31

/-- `rpc_krb_key_t` and the `rpc_krb_info_t` that it belongs to. -/
structure rpc_krb_key_t where
  authn_level_none : Bool
  creds_valid : Bool
  status : error_status_t
  sched_key_seq : BitVec 32
  current_key : BitVec 32
  keyseqs : List (BitVec 32)

/-- `rpc_dg_ccall_t`: what the conversation manager uses of a client call. `auth_epv` is there for an authenticated
call, with the key that is handed to its way handler. -/
structure rpc_dg_ccall_t where
  call_actid : uuid_t
  call_server_boot : BitVec 32
  call_seq : BitVec 32
  auth_epv : Option rpc_krb_key_t
  auth_way_info : Option sec_krb_message

/-- The client calls of a process and its address space UUID. -/
structure Client where
  ccallt : List rpc_dg_ccall_t
  rpc_g_dg_my_cas_uuid : uuid_t

/-- What a challenge holds: a key's number, a nonce and the format of the credentials asked for. -/
structure Challenge where
  ksno : BitVec 32
  nonce : List Byte
  authz_fmt : BitVec 32

/-- The services around the conversation manager: the credentials that the security service builds for a key and a
challenge, and whether memory is left. -/
structure Services where
  sec_krb_dg_build_message : rpc_krb_key_t → Option Challenge → error_status_t × sec_krb_message
  RPC_MEM_ALLOC : ℕ → Bool

/-- Some octets of a body, from an offset on. -/
structure Span where
  start : ℤ
  size : ℕ
  deriving DecidableEq

/-- What is stored in a reply. A variable that was given no value stores what was on the stack. -/
inductive Stored where
  | seq (way_seq : Option (BitVec 32))
  | cas_uuid (way2_cas_uuid : Option uuid_t)
  | number (value : BitVec 32)
  | status (way_status : error_status_t)
  | credentials (message : Option sec_krb_message) (start : ℕ)

/-- A store into the body of a packet. -/
structure Store extends Span where
  value : Stored

/-- What a stub did: the octets it read, the stores it made and the length it left in the reply's header. -/
structure Reply where
  client : Client
  reads : List Span
  stores : List Store
  len : BitVec 16

/-- A reply by a stub that ran after other octets were read. -/
def Reply.after (reply : Reply) (spans : List Span) : Reply := { reply with reads := spans ++ reply.reads }

section Load

variable (order : ByteOrder)

/-- `ndr_g_local_drep` says how the host keeps the bytes of an integer. -/
def load_16 (args : ℤ → Byte) (off : ℤ) : BitVec 16 :=
  match order with
  | .big => args off ++ args (off + 1)
  | .little => args (off + 1) ++ args off

def load_32 (args : ℤ → Byte) (off : ℤ) : BitVec 32 :=
  order.ofMemory [args off, args (off + 1), args (off + 2), args (off + 3)]

/-- `SWAB_INPLACE_16`. -/
def SWAB_16 (field : BitVec 16) : BitVec 16 := field.extractLsb' 0 8 ++ field.extractLsb' 8 8

/-- `SWAB_INPLACE_32`. -/
def SWAB_32 (field : BitVec 32) : BitVec 32 := ofNetworkBytes (networkBytes field).reverse

/-- An integer of a body, its bytes swapped when the sender's order is not the host's. -/
def unmarshall_32 (rqe : rpc_dg_recvq_elt_t) (off : ℤ) : BitVec 32 :=
  let value := load_32 order rqe.args off
  if rqe.hdrp.drep ≠ order then SWAB_32 value else value

def load_uuid (args : ℤ → Byte) : uuid_t where
  time_low := load_32 order args 0
  time_mid := load_16 order args 4
  time_hi_and_version := load_16 order args 6
  clock_seq_hi_and_reserved := args 8
  clock_seq_low := args 9
  node := ⟨[args 10, args 11, args 12, args 13, args 14, args 15], rfl⟩

/-- `SWAB_INPLACE_UUID`. -/
def SWAB_UUID (field : uuid_t) : uuid_t where
  time_low := SWAB_32 field.time_low
  time_mid := SWAB_16 field.time_mid
  time_hi_and_version := SWAB_16 field.time_hi_and_version
  clock_seq_hi_and_reserved := field.clock_seq_hi_and_reserved
  clock_seq_low := field.clock_seq_low
  node := field.node

def clt_actid (rqe : rpc_dg_recvq_elt_t) : uuid_t :=
  let actid := load_uuid order rqe.args
  if rqe.hdrp.drep ≠ order then SWAB_UUID actid else actid

def clt_boot (rqe : rpc_dg_recvq_elt_t) : BitVec 32 := unmarshall_32 order rqe 16

end Load

section Manager

def rpc__dg_ccallt_lookup (client : Client) (actuid : uuid_t) : Option rpc_dg_ccall_t :=
  client.ccallt.find? fun ccall => ccall.call_actid = actuid

def Client.update (client : Client) (ccall : rpc_dg_ccall_t) : Client :=
  { client with ccallt := client.ccallt.map fun c => if c.call_actid = ccall.call_actid then ccall else c }

/-- `conv_common`: the call that a callback is about, with the server's boot time stashed away. -/
def conv_common (client : Client) (actuid : uuid_t) (boot_time : BitVec 32) : Except error_status_t rpc_dg_ccall_t :=
  match rpc__dg_ccallt_lookup client actuid with
  | none => .error nca_s_bad_actid
  | some ccall =>
    if ccall.call_server_boot = 0 then .ok { ccall with call_server_boot := boot_time }
    else if ccall.call_server_boot ≠ boot_time then .error nca_s_you_crashed
    else .ok ccall

/-- What `conv_who_are_you` hands back. -/
structure WayAnswer where
  client : Client
  seq : Option (BitVec 32)
  st : error_status_t

def conv_who_are_you (client : Client) (actuid : uuid_t) (boot_time : BitVec 32) : WayAnswer :=
  match conv_common client actuid boot_time with
  | .error st => ⟨client, none, st⟩
  | .ok ccall => ⟨client.update ccall, some ccall.call_seq, rpc_s_ok⟩

def conv_are_you_there (client : Client) (actuid : uuid_t) (boot_time : BitVec 32) : Client × error_status_t :=
  match conv_common client actuid boot_time with
  | .error st => (client, st)
  | .ok ccall => (client.update ccall, rpc_s_ok)

def SEC_AUTHZ_FMT_V1_0 : BitVec 32 := 1

def rpc__krb_set_key (krb_key : rpc_krb_key_t) (ksno : BitVec 32) : error_status_t :=
  if krb_key.authn_level_none then rpc_s_ok
  else if krb_key.sched_key_seq = ksno then rpc_s_ok
  else if krb_key.keyseqs.contains ksno then rpc_s_ok
  else rpc_s_key_id_not_found

/-- `rpc_convert_be_long_int`: an integer of the challenge, whose most significant byte comes first. -/
def rpc_convert_be_long_int (args : ℤ → Byte) (mp : ℤ) : BitVec 32 :=
  ofNetworkBytes [args mp, args (mp + 1), args (mp + 2), args (mp + 3)]

/-- The challenge that lies in a body, in its older form of 12 octets or with the format asked for. -/
def unmarshall_challenge (args : ℤ → Byte) (in_data : ℤ) (in_len : BitVec 32) : Challenge where
  ksno := rpc_convert_be_long_int args in_data
  nonce := (List.range 8).map fun i => args (in_data + 4 + i)
  authz_fmt := if in_len.toInt ≥ 16 then rpc_convert_be_long_int args (in_data + 12) else SEC_AUTHZ_FMT_V1_0

/-- The octets of a body that `unmarshall_challenge` reads. -/
def challenge_spans (in_data : ℤ) (in_len : BitVec 32) : List Span :=
  [⟨in_data, 4⟩, ⟨in_data + 4, 8⟩] ++ if in_len.toInt ≥ 16 then [⟨in_data + 12, 4⟩] else []

variable (services : Services)

/-- The credentials count when the security service built them. -/
def built (reads : List Span) (answer : error_status_t × sec_krb_message) :
    List Span × error_status_t × Option sec_krb_message :=
  (reads, answer.1, if answer.1 = rpc_s_ok then some answer.2 else none)

/-- The part of `rpc__krb_dg_way_handler` in front of the copy: what it reads of the challenge, its status and the
credentials. -/
def krb_dg_message (key : rpc_krb_key_t) (args : ℤ → Byte) (in_data : ℤ) (in_len : BitVec 32) :
    List Span × error_status_t × Option sec_krb_message :=
  if !key.authn_level_none && !key.creds_valid then ([], rpc_s_invalid_credentials, none)
  else if key.status ≠ rpc_s_ok then ([], key.status, none)
  else if key.authn_level_none then built [] (services.sec_krb_dg_build_message key none)
  else if in_len ≠ 12 ∧ in_len.toInt < 16 then ([], rpc_s_authn_challenge_malformed, none)
  else
    let challenge := unmarshall_challenge args in_data in_len
    let ksno := if challenge.ksno = -1 then key.current_key else challenge.ksno
    match rpc__krb_set_key key ksno with
    | rpc_s_ok =>
      built (challenge_spans in_data in_len) (services.sec_krb_dg_build_message key (some { challenge with ksno }))
    | st => (challenge_spans in_data in_len, st, none)

/-- What a way handler hands back: the octets it read and stored in the body, the credentials that `out_data` points at,
their length and a status. -/
structure WayHandled where
  reads : List Span
  stores : List Store
  out_data : Option sec_krb_message
  out_len : BitVec 32
  st : error_status_t

/-- `rpc__krb_dg_way_handler`. The length of the credentials is unsigned, so the limit is compared as an unsigned number. -/
def rpc__krb_dg_way_handler (key : rpc_krb_key_t) (args : ℤ → Byte) (in_data : ℤ) (in_len out_max_len : BitVec 32)
    (out_data : ℤ) : WayHandled :=
  match krb_dg_message services key args in_data in_len with
  | (reads, st, none) => ⟨reads, [], none, 0, st⟩
  | (reads, st, some ap_req) =>
    let length := ap_req.data.length
    if length > out_max_len.toNat then
      if services.RPC_MEM_ALLOC length then ⟨reads, [], some ap_req, BitVec.ofNat 32 length, st⟩
      else ⟨reads, [], none, 0, rpc_s_no_memory⟩
    else ⟨reads, [⟨⟨out_data, length⟩, .credentials (some ap_req) 0⟩], some ap_req, BitVec.ofNat 32 length, st⟩

/-- What the conversation manager hands back to the stubs for authenticated calls. -/
structure WayAuthAnswer where
  client : Client
  reads : List Span
  stores : List Store
  seq : Option (BitVec 32)
  cas_uuid : Option uuid_t
  out_len : BitVec 32
  st : error_status_t

/-- `conv_who_are_you_auth`. The limit goes to `memcpy` as a size, which is unsigned. -/
def conv_who_are_you_auth (client : Client) (actuid : uuid_t) (boot_time : BitVec 32) (args : ℤ → Byte) (in_data : ℤ)
    (in_len out_max_len : BitVec 32) (out_data : ℤ) : WayAuthAnswer :=
  match conv_common client actuid boot_time with
  | .error st => ⟨client, [], [], none, none, 0, st⟩
  | .ok ccall =>
    let cas_uuid := some client.rpc_g_dg_my_cas_uuid
    let seq := some ccall.call_seq
    let ccall := { ccall with auth_way_info := none }
    match ccall.auth_epv with
    | none => ⟨client.update ccall, [], [], seq, cas_uuid, 0, rpc_s_binding_has_no_auth⟩
    | some key =>
      let handled := rpc__krb_dg_way_handler services key args in_data in_len out_max_len out_data
      if handled.st = rpc_s_ok ∧ handled.out_len.toInt > out_max_len.toInt then
        ⟨client.update { ccall with auth_way_info := handled.out_data }, handled.reads,
          handled.stores ++ [⟨⟨out_data, out_max_len.toNat⟩, .credentials handled.out_data 0⟩], seq, cas_uuid, out_max_len,
          rpc_s_partial_credentials⟩
      else ⟨client.update ccall, handled.reads, handled.stores, seq, cas_uuid, handled.out_len, handled.st⟩

/-- `conv_who_are_you_auth_more`. The length of the credentials is unsigned, so that the index and its sum with the limit
are compared as unsigned numbers. -/
def conv_who_are_you_auth_more (client : Client) (actuid : uuid_t) (boot_time index out_max_len : BitVec 32)
    (out_data : ℤ) : WayAuthAnswer :=
  match conv_common client actuid boot_time with
  | .error st => ⟨client, [], [], none, none, 0, st⟩
  | .ok ccall =>
    let way_info := ccall.auth_way_info
    let info_len := BitVec.ofNat 32 ((way_info.map fun info => info.data.length).getD 0)
    let copied := fun (out_len : BitVec 32) (st : error_status_t) =>
      (⟨client.update ccall, [], [⟨⟨out_data, out_len.toNat⟩, .credentials way_info index.toNat⟩], none, none, out_len, st⟩ :
        WayAuthAnswer)
    if way_info.isNone ∨ info_len = 0 ∨ index ≥ info_len then copied 0 rpc_s_auth_badorder
    else if index + out_max_len ≥ info_len then copied (info_len - index) rpc_s_ok
    else copied out_max_len rpc_s_partial_credentials

end Manager

section Stubs

variable (order : ByteOrder) (services : Services)

def RPC_C_DG_MAX_PKT_SIZE : ℕ := 540 * 8

def RPC_C_DG_RAW_PKT_HDR_SIZE : ℕ := 80

/-- `RPC_C_DG_MAX_PKT_BODY_SIZE`: the size of the body of a packet buffer. -/
def RPC_C_DG_MAX_PKT_BODY_SIZE : ℕ := RPC_C_DG_MAX_PKT_SIZE - RPC_C_DG_RAW_PKT_HDR_SIZE

def CONV_MIN_REQUEST_LEN : ℕ := 20
def WAY_RESPONSE_LEN : BitVec 16 := 8
def WAY2_RESPONSE_LEN : BitVec 16 := 24
def AYT_RESPONSE_LEN : BitVec 16 := 4

def round_up (out_len : BitVec 32) : BitVec 32 := (out_len + 3) &&& ~~~3

def conv_stub_who_are_you (client : Client) (rqe : rpc_dg_recvq_elt_t) : Reply :=
  let answer := conv_who_are_you client (clt_actid order rqe) (clt_boot order rqe)
  { client := answer.client
    reads := []
    stores := [⟨⟨0, 4⟩, .seq answer.seq⟩, ⟨⟨4, 4⟩, .status answer.st⟩]
    len := WAY_RESPONSE_LEN }

def conv_stub_who_are_you2 (client : Client) (rqe : rpc_dg_recvq_elt_t) : Reply :=
  let answer := conv_who_are_you client (clt_actid order rqe) (clt_boot order rqe)
  { client := answer.client
    reads := []
    stores := [⟨⟨0, 4⟩, .seq answer.seq⟩, ⟨⟨4, 16⟩, .cas_uuid (some client.rpc_g_dg_my_cas_uuid)⟩,
      ⟨⟨20, 4⟩, .status answer.st⟩]
    len := WAY2_RESPONSE_LEN }

def conv_stub_are_you_there (client : Client) (rqe : rpc_dg_recvq_elt_t) : Reply :=
  let answer := conv_are_you_there client (clt_actid order rqe) (clt_boot order rqe)
  { client := answer.1
    reads := []
    stores := [⟨⟨0, 4⟩, .status answer.2⟩]
    len := AYT_RESPONSE_LEN }

/-- The room for credentials in a reply to `conv_who_are_you_auth`. -/
def WAY_AUTH_MAX : ℕ := RPC_C_DG_MAX_PKT_SIZE - (RPC_C_DG_RAW_PKT_HDR_SIZE + 40)

/-- The limit that a request sets to the length of the credentials, cut down to what a packet has room for. -/
def way_auth_max_len (out_max_len : BitVec 32) : BitVec 32 :=
  if out_max_len.toInt > WAY_AUTH_MAX then BitVec.ofNat 32 WAY_AUTH_MAX else out_max_len

/-- The length that a reply tells: it is cut down to the limit, but not the place of what follows the credentials. -/
def told_len (out_len out_max_len : BitVec 32) : BitVec 32 :=
  if (round_up out_len).toInt > out_max_len.toInt then out_max_len else out_len

def marshall_way_auth (answer : WayAuthAnswer) (out_max_len : BitVec 32) : List Store :=
  let out_round_len := round_up answer.out_len
  let out_len := told_len answer.out_len out_max_len
  [⟨⟨0, 4⟩, .seq answer.seq⟩, ⟨⟨4, 16⟩, .cas_uuid answer.cas_uuid⟩, ⟨⟨20, 4⟩, .number out_max_len⟩, ⟨⟨24, 4⟩, .number 0⟩,
    ⟨⟨28, 4⟩, .number out_len⟩, ⟨⟨32 + out_round_len.toInt, 4⟩, .number out_len⟩,
    ⟨⟨36 + out_round_len.toInt, 4⟩, .status answer.st⟩]

/-- `conv_stub_who_are_you_auth`. A request of a wrong size leaves the packet and the length of its header alone. -/
def conv_stub_who_are_you_auth (client : Client) (rqe : rpc_dg_recvq_elt_t) : Reply :=
  let in_len := unmarshall_32 order rqe 20
  if in_len + 32 ≠ rqe.hdrp.len.setWidth 32 ∨ in_len.toInt < 0 then
    { client, reads := [⟨20, 4⟩], stores := [], len := rqe.hdrp.len }
  else
    let out_max_len := way_auth_max_len (unmarshall_32 order rqe (28 + in_len.toInt))
    let answer := conv_who_are_you_auth services client (clt_actid order rqe) (clt_boot order rqe) rqe.args 24 in_len
      out_max_len 32
    { client := answer.client
      reads := [⟨20, 4⟩, ⟨28 + in_len.toInt, 4⟩] ++ answer.reads
      stores := answer.stores ++ marshall_way_auth answer out_max_len
      len := (40 + round_up answer.out_len).setWidth 16 }

/-- The fields in front of a further piece of the credentials and behind it. -/
def marshall_way_auth_more (answer : WayAuthAnswer) (out_max_len : BitVec 32) : List Store :=
  let out_round_len := round_up answer.out_len
  let out_len := told_len answer.out_len out_max_len
  [⟨⟨0, 4⟩, .number out_max_len⟩, ⟨⟨4, 4⟩, .number 0⟩, ⟨⟨8, 4⟩, .number out_len⟩,
    ⟨⟨12 + out_round_len.toInt, 4⟩, .number out_len⟩, ⟨⟨16 + out_round_len.toInt, 4⟩, .status answer.st⟩]

def conv_stub_who_are_you_auth_more (client : Client) (rqe : rpc_dg_recvq_elt_t) : Reply :=
  let index := unmarshall_32 order rqe 20
  let out_max_len := unmarshall_32 order rqe 24
  let answer := conv_who_are_you_auth_more client (clt_actid order rqe) (clt_boot order rqe) index out_max_len 12
  { client := answer.client
    reads := [⟨20, 4⟩, ⟨24, 4⟩] ++ answer.reads
    stores := answer.stores ++ marshall_way_auth_more answer out_max_len
    len := (20 + round_up answer.out_len).setWidth 16 }

def conv_stubs : List (Client → rpc_dg_recvq_elt_t → Reply) :=
  [conv_stub_who_are_you order, conv_stub_who_are_you2 order, conv_stub_are_you_there order,
    conv_stub_who_are_you_auth order services, conv_stub_who_are_you_auth_more order]

def conv_v3_0_vers : BitVec 32 := 3

def common_spans : List Span := [⟨0, 16⟩, ⟨16, 4⟩]

/-- What becomes of a callback: it is dropped, it calls what lies behind the table of stubs, or it is replied to. -/
inductive Handled where
  | dropped
  | undefined
  | replied (reply : Reply)

def handle_conv_int (client : Client) (rqe : rpc_dg_recvq_elt_t) : Handled :=
  if rqe.hdrp.if_vers ≠ conv_v3_0_vers ∨ rqe.hdrp.opnum.toNat > 5 ∨ rqe.hdrp.len.toNat < CONV_MIN_REQUEST_LEN then .dropped
  else
    match (conv_stubs order services)[rqe.hdrp.opnum.toNat]? with
    | none => .undefined
    | some stub => .replied ((stub client rqe).after common_spans)

end Stubs

end dce.rpc.conv
