import Dce.Rpc.Conv

open lib

namespace dce.rpc.conv

open error_status_t

/-- Octets that lie in the first ones of a body. -/
structure Span.Within (span : Span) (size : ℕ) : Prop where
  start : 0 ≤ span.start
  stop : span.start + span.size ≤ size

/-- A stub read only octets of the request's body, its stores lie in the packet's buffer and the length in the header is
where the last of them ends. -/
structure Reply.InBounds (reply : Reply) (body_len : ℕ) : Prop where
  reads : ∀ span ∈ reply.reads, span.Within body_len
  stores : ∀ store ∈ reply.stores, store.toSpan.Within RPC_C_DG_MAX_PKT_BODY_SIZE
  covers : ∀ store ∈ reply.stores, store.start + store.size ≤ reply.len.toNat
  ends : ∃ store ∈ reply.stores, store.start + store.size = reply.len.toNat

/-- A callback stays in bounds: it is dropped, or a stub of the table replies to it in bounds. -/
def Handled.InBounds (body_len : ℕ) : Handled → Prop
  | .dropped => True
  | .undefined => False
  | .replied reply => reply.InBounds body_len

variable {v : BitVec 32}

theorem toNat_round_up (hv : v.toNat < 2 ^ 31 - 4) : (round_up v).toNat = (v.toNat + 3) / 4 * 4 := by
  have hmask : round_up v = (v + 3) >>> 2 <<< 2 := by
    apply BitVec.eq_of_getLsbD_eq
    intro i hi
    simp only [round_up, BitVec.getLsbD_and, BitVec.getLsbD_not, BitVec.getLsbD_shiftLeft, BitVec.getLsbD_ushiftRight]
    interval_cases i <;> simp
  have hadd : (v + 3).toNat = v.toNat + 3 := by
    rw [BitVec.toNat_add]
    exact Nat.mod_eq_of_lt (by simp; omega)
  rw [hmask, BitVec.toNat_shiftLeft, BitVec.toNat_ushiftRight, hadd, Nat.shiftLeft_eq, Nat.shiftRight_eq_div_pow]
  omega

theorem toInt_eq_toNat (hv : v.toNat < 2 ^ 31) : v.toInt = v.toNat := by
  rw [BitVec.toInt_eq_toNat_cond, if_pos (by omega)]

theorem toInt_round_up (hv : v.toNat < 2 ^ 31 - 4) : (round_up v).toInt = ((v.toNat + 3) / 4 * 4 : ℕ) := by
  rw [toInt_eq_toNat, toNat_round_up hv]
  rw [toNat_round_up hv]
  omega

/-- The stores that copy credentials to an offset, not more of them than are told. -/
def WayAuthAnswer.Copies (answer : WayAuthAnswer) (out_data : ℤ) : Prop :=
  ∀ store ∈ answer.stores, store.start = out_data ∧ store.size ≤ answer.out_len.toNat

theorem Reply.inBounds_of_last {reply : Reply} {body_len : ℕ} (hreads : ∀ span ∈ reply.reads, span.Within body_len)
    (hroom : reply.len.toNat ≤ RPC_C_DG_MAX_PKT_BODY_SIZE)
    (hstores : ∀ store ∈ reply.stores, 0 ≤ store.start ∧ store.start + store.size ≤ reply.len.toNat)
    (hlast : ∃ store ∈ reply.stores, store.start + store.size = reply.len.toNat) : reply.InBounds body_len := by
  refine ⟨hreads, fun store hmem => ⟨(hstores store hmem).1, ?_⟩, fun store hmem => (hstores store hmem).2, hlast⟩
  have hstop := (hstores store hmem).2
  omega

theorem inBounds_around {client : Client} {reads : List Span} {body_len head : ℕ} {answer : WayAuthAnswer}
    {fields marshalled : List Store} {out_len : BitVec 32} {len : BitVec 16}
    (hreads : ∀ span ∈ reads, span.Within body_len) (hcopies : answer.Copies head)
    (hlen : head + 8 + answer.out_len.toNat ≤ RPC_C_DG_MAX_PKT_BODY_SIZE) (hhead : head % 4 = 0)
    (hfields : ∀ store ∈ fields, 0 ≤ store.start ∧ store.start + store.size ≤ head)
    (hmarshalled : marshalled = fields ++ [⟨⟨head + (round_up answer.out_len).toInt, 4⟩, .number out_len⟩,
      ⟨⟨head + 4 + (round_up answer.out_len).toInt, 4⟩, .status answer.st⟩])
    (htotal : len = (BitVec.ofNat 32 (head + 8) + round_up answer.out_len).setWidth 16) :
    (Reply.mk client reads (answer.stores ++ marshalled) len).InBounds body_len := by
  subst hmarshalled htotal
  have hbody : RPC_C_DG_MAX_PKT_BODY_SIZE = 4240 := rfl
  have hsmall : answer.out_len.toNat < 2 ^ 31 - 4 := by omega
  have hround := toInt_round_up hsmall
  have htotal : ((BitVec.ofNat 32 (head + 8) + round_up answer.out_len).setWidth 16).toNat =
      head + 8 + (answer.out_len.toNat + 3) / 4 * 4 := by
    rw [BitVec.toNat_setWidth, BitVec.toNat_add, toNat_round_up hsmall, BitVec.toNat_ofNat]
    omega
  refine Reply.inBounds_of_last hreads (by dsimp only; omega) ?_ ?_
  · intro store hmem
    rw [htotal]
    obtain hcopy | hmem := List.mem_append.mp hmem
    · obtain ⟨hstart, hsize⟩ := hcopies store hcopy
      omega
    · obtain hfield | hmem := List.mem_append.mp hmem
      · have := hfields store hfield
        omega
      · simp only [List.mem_cons, List.not_mem_nil, or_false] at hmem
        obtain rfl | rfl := hmem
        · dsimp only
          omega
        · dsimp only
          omega
  · refine ⟨⟨⟨head + 4 + (round_up answer.out_len).toInt, 4⟩, .status answer.st⟩, by simp, ?_⟩
    rw [htotal]
    dsimp only
    omega

section WayHandler

variable (services : Services) (key : rpc_krb_key_t) (args : ℤ → Byte) (in_data : ℤ) (in_len : BitVec 32)

theorem built_ok_iff (reads : List Span) (answer : error_status_t × sec_krb_message) :
    (built reads answer).2.1 = rpc_s_ok ↔ (built reads answer).2.2.isSome := by
  by_cases hst : answer.1 = rpc_s_ok <;> simp [built, hst]

theorem krb_dg_message_ok_iff : (krb_dg_message services key args in_data in_len).2.1 = rpc_s_ok ↔
    (krb_dg_message services key args in_data in_len).2.2.isSome := by
  rw [krb_dg_message]
  split_ifs with hcreds hstatus hnone hshort
  · simp
  · simp [hstatus]
  · exact built_ok_iff [] _
  · simp
  · dsimp only
    split
    · exact built_ok_iff _ _
    · next hne => simpa using hne

theorem krb_dg_message_reads {span : Span} (hmem : span ∈ (krb_dg_message services key args in_data in_len).1) :
    in_data ≤ span.start ∧ span.start + span.size ≤ in_data + in_len.toInt := by
  have hspans (hlong : ¬ (in_len ≠ 12 ∧ in_len.toInt < 16)) (hspan : span ∈ challenge_spans in_data in_len) :
      in_data ≤ span.start ∧ span.start + span.size ≤ in_data + in_len.toInt := by
    have htwelve : in_len = 12 → in_len.toInt = 12 := by
      rintro rfl
      rfl
    simp only [challenge_spans, List.mem_append, List.mem_cons, List.not_mem_nil, or_false] at hspan
    split_ifs at hspan with hformat
    · simp only [List.mem_cons, List.not_mem_nil, or_false] at hspan
      obtain (rfl | rfl) | rfl := hspan <;> dsimp only <;> omega
    · simp only [List.not_mem_nil, or_false] at hspan
      obtain rfl | rfl := hspan <;> dsimp only <;> grind
  rw [krb_dg_message] at hmem
  split_ifs at hmem with hcreds hstatus hnone hshort
  · simp at hmem
  · simp at hmem
  · simp [built] at hmem
  · simp at hmem
  · dsimp only at hmem
    split at hmem
    · exact hspans hshort hmem
    · exact hspans hshort hmem

variable {services key args in_data in_len}

theorem krb_dg_way_handler_refused (out_max_len : BitVec 32) (out_data : ℤ)
    (hrefused : (krb_dg_message services key args in_data in_len).2.1 ≠ rpc_s_ok) :
    rpc__krb_dg_way_handler services key args in_data in_len out_max_len out_data =
      ⟨(krb_dg_message services key args in_data in_len).1, [], none, 0, (krb_dg_message services key args in_data in_len).2.1⟩ := by
  rw [ne_eq, krb_dg_message_ok_iff, Bool.not_eq_true, Option.isSome_eq_false_iff, Option.isNone_iff_eq_none] at hrefused
  generalize hmessage : krb_dg_message services key args in_data in_len = message at hrefused ⊢
  obtain ⟨reads, st, credentials⟩ := message
  obtain rfl : credentials = none := hrefused
  rw [rpc__krb_dg_way_handler, hmessage]

theorem krb_dg_way_handler_built (out_max_len : BitVec 32) (out_data : ℤ)
    (hbuilt : (krb_dg_message services key args in_data in_len).2.1 = rpc_s_ok) :
    ∃ message : sec_krb_message,
      rpc__krb_dg_way_handler services key args in_data in_len out_max_len out_data =
        if message.data.length > out_max_len.toNat then
          if services.RPC_MEM_ALLOC message.data.length then
            ⟨(krb_dg_message services key args in_data in_len).1, [], some message, BitVec.ofNat 32 message.data.length, rpc_s_ok⟩
          else ⟨(krb_dg_message services key args in_data in_len).1, [], none, 0, rpc_s_no_memory⟩
        else ⟨(krb_dg_message services key args in_data in_len).1,
          [⟨⟨out_data, message.data.length⟩, .credentials (some message) 0⟩], some message,
          BitVec.ofNat 32 message.data.length, rpc_s_ok⟩ := by
  have hsome := hbuilt
  rw [krb_dg_message_ok_iff, Option.isSome_iff_exists] at hsome
  obtain ⟨ap_req, hsome⟩ := hsome
  generalize hmessage : krb_dg_message services key args in_data in_len = message at hsome hbuilt ⊢
  obtain ⟨reads, st, credentials⟩ := message
  obtain rfl : credentials = some ap_req := hsome
  obtain rfl : st = rpc_s_ok := hbuilt
  refine ⟨ap_req, ?_⟩
  rw [rpc__krb_dg_way_handler, hmessage]

end WayHandler

theorem Reply.not_inBounds {reply : Reply} {body_len : ℕ} {store : Store} (hmem : store ∈ reply.stores)
    (hlong : RPC_C_DG_MAX_PKT_BODY_SIZE < store.start + store.size) : ¬ reply.InBounds body_len :=
  fun h => absurd (h.stores store hmem).stop (not_le.mpr hlong)

section WhoAreYouAuth

variable (order : ByteOrder) (services : Services) (client : Client) (rqe : rpc_dg_recvq_elt_t)

/-- The client knows the call that a callback is about, and has credentials for the challenge in it. -/
def HasCredentials : Prop :=
  ∃ ccall key, conv_common client (clt_actid order rqe) (clt_boot order rqe) = .ok ccall ∧ ccall.auth_epv = some key ∧
    (krb_dg_message services key rqe.args 24 (unmarshall_32 order rqe 20)).2.1 = rpc_s_ok

variable {order services client rqe}

variable {out_max_len : BitVec 32} {body_len : ℕ} {answer : WayAuthAnswer} {reads : List Span}

theorem conv_who_are_you_auth_reads {span : Span}
    (hmem : span ∈ (conv_who_are_you_auth services client (clt_actid order rqe) (clt_boot order rqe) rqe.args 24
      (unmarshall_32 order rqe 20) out_max_len 32).reads) :
    24 ≤ span.start ∧ span.start + span.size ≤ 24 + (unmarshall_32 order rqe 20).toInt := by
  have hhandled (key : rpc_krb_key_t) (hspan : span ∈ (rpc__krb_dg_way_handler services key rqe.args 24
      (unmarshall_32 order rqe 20) out_max_len 32).reads) :
      24 ≤ span.start ∧ span.start + span.size ≤ 24 + (unmarshall_32 order rqe 20).toInt := by
    by_cases hbuilt : (krb_dg_message services key rqe.args 24 (unmarshall_32 order rqe 20)).2.1 = rpc_s_ok
    · obtain ⟨message, hmessage⟩ := krb_dg_way_handler_built out_max_len 32 hbuilt
      rw [hmessage] at hspan
      split_ifs at hspan <;> exact krb_dg_message_reads services key rqe.args 24 (unmarshall_32 order rqe 20) hspan
    · rw [krb_dg_way_handler_refused out_max_len 32 hbuilt] at hspan
      exact krb_dg_message_reads services key rqe.args 24 (unmarshall_32 order rqe 20) hspan
  rw [conv_who_are_you_auth] at hmem
  split at hmem
  · simp at hmem
  · dsimp only at hmem
    split at hmem
    · simp at hmem
    · next key _ =>
      split_ifs at hmem
      · exact hhandled key hmem
      · exact hhandled key hmem

theorem conv_who_are_you_auth_refused (out_max_len : BitVec 32) (hnone : ¬ HasCredentials order services client rqe) :
    (conv_who_are_you_auth services client (clt_actid order rqe) (clt_boot order rqe) rqe.args 24
      (unmarshall_32 order rqe 20) out_max_len 32).stores = [] ∧
    (conv_who_are_you_auth services client (clt_actid order rqe) (clt_boot order rqe) rqe.args 24
      (unmarshall_32 order rqe 20) out_max_len 32).out_len = 0 := by
  rw [conv_who_are_you_auth]
  split
  · exact ⟨rfl, rfl⟩
  · next ccall hcommon =>
    dsimp only
    split
    · exact ⟨rfl, rfl⟩
    · next key hepv =>
      have hrefused : (krb_dg_message services key rqe.args 24 (unmarshall_32 order rqe 20)).2.1 ≠ rpc_s_ok :=
        fun hbuilt => hnone ⟨ccall, key, hcommon, hepv, hbuilt⟩
      rw [krb_dg_way_handler_refused out_max_len 32 hrefused, if_neg fun h => hrefused h.1]
      exact ⟨rfl, rfl⟩

theorem conv_who_are_you_auth_copies (hlimit : 0 ≤ out_max_len.toInt) :
    (conv_who_are_you_auth services client (clt_actid order rqe) (clt_boot order rqe) rqe.args 24
      (unmarshall_32 order rqe 20) out_max_len 32).Copies 32 ∧
    (conv_who_are_you_auth services client (clt_actid order rqe) (clt_boot order rqe) rqe.args 24
      (unmarshall_32 order rqe 20) out_max_len 32).out_len.toNat ≤ out_max_len.toNat := by
  by_cases hcredentials : HasCredentials order services client rqe
  · obtain ⟨ccall, key, hcommon, hepv, hbuilt⟩ := hcredentials
    obtain ⟨message, hmessage⟩ := krb_dg_way_handler_built out_max_len 32 hbuilt
    have hlt := message.length_lt
    have hlength : (BitVec.ofNat 32 message.data.length).toNat = message.data.length := by
      rw [BitVec.toNat_ofNat]
      omega
    have hsigned : (BitVec.ofNat 32 message.data.length).toInt = message.data.length := by
      rw [toInt_eq_toNat (by omega), hlength]
    have hmax : out_max_len.toInt = out_max_len.toNat := by
      rw [BitVec.toInt_eq_toNat_cond] at hlimit ⊢
      split_ifs at hlimit ⊢ <;> omega
    simp only [conv_who_are_you_auth, hcommon, hepv, hmessage]
    split_ifs with hlong halloc hover hover hover
    · exact ⟨fun store hmem => by simp_all, le_rfl⟩
    · simp_all
    · simp_all
    · exact ⟨fun store hmem => by simp at hmem, Nat.zero_le _⟩
    · simp_all
      omega
    · refine ⟨fun store hmem => ?_, hlength.le.trans (Nat.not_lt.mp hlong)⟩
      obtain rfl := List.mem_singleton.mp hmem
      exact ⟨rfl, hlength.ge⟩
  · obtain ⟨hstores, hlen⟩ := conv_who_are_you_auth_refused out_max_len hcredentials
    refine ⟨fun store hmem => ?_, ?_⟩
    · rw [hstores] at hmem
      simp at hmem
    · rw [hlen]
      exact Nat.zero_le _

theorem conv_who_are_you_auth_overruns (hlimit : out_max_len.toInt < 0)
    (hcredentials : HasCredentials order services client rqe) :
    ∃ store ∈ (conv_who_are_you_auth services client (clt_actid order rqe) (clt_boot order rqe) rqe.args 24
      (unmarshall_32 order rqe 20) out_max_len 32).stores, store.start = 32 ∧ 2 ^ 31 ≤ store.size := by
  obtain ⟨ccall, key, hcommon, hepv, hbuilt⟩ := hcredentials
  obtain ⟨message, hmessage⟩ := krb_dg_way_handler_built out_max_len 32 hbuilt
  have hlt := message.length_lt
  have hlength : (BitVec.ofNat 32 message.data.length).toNat = message.data.length := by
    rw [BitVec.toNat_ofNat]
    omega
  have hsigned : (BitVec.ofNat 32 message.data.length).toInt = message.data.length := by
    rw [toInt_eq_toNat (by omega), hlength]
  have hmax : 2 ^ 31 ≤ out_max_len.toNat := by
    rw [BitVec.toInt_eq_toNat_cond] at hlimit
    split_ifs at hlimit <;> omega
  have hshort : ¬ message.data.length > out_max_len.toNat := by omega
  have hover : (BitVec.ofNat 32 message.data.length).toInt > out_max_len.toInt := by omega
  refine ⟨⟨⟨32, out_max_len.toNat⟩, .credentials (some message) 0⟩, ?_, rfl, hmax⟩
  simp only [conv_who_are_you_auth, hcommon, hepv, hmessage, if_neg hshort]
  rw [if_pos ⟨trivial, hover⟩]
  simp

theorem common_spans_within (hlen : 20 ≤ body_len) {span : Span} (hmem : span ∈ common_spans) :
    span.Within body_len := by
  simp only [common_spans, List.mem_cons, List.not_mem_nil, or_false] at hmem
  obtain rfl | rfl := hmem <;> constructor <;> dsimp only <;> omega

variable (order services client rqe)

/-- A challenge fills its request, and the limit to the credentials is no negative number when there are some. -/
structure WayAuthFits : Prop where
  nonneg : 0 ≤ (unmarshall_32 order rqe 20).toInt
  size : (unmarshall_32 order rqe 20).toInt + 32 = rqe.hdrp.len.toNat
  limit : HasCredentials order services client rqe →
    0 ≤ (unmarshall_32 order rqe (28 + (unmarshall_32 order rqe 20).toInt)).toInt

variable {order services client rqe}

theorem way_auth_size_iff (in_len : BitVec 32) (len : BitVec 16) :
    (in_len + 32 ≠ len.setWidth 32 ∨ in_len.toInt < 0) ↔ ¬ (0 ≤ in_len.toInt ∧ in_len.toInt + 32 = len.toNat) := by
  have hlen := len.isLt
  have hin := in_len.isLt
  have hsize : in_len + 32 = len.setWidth 32 ↔ (in_len.toNat + 32) % 2 ^ 32 = len.toNat := by
    rw [← BitVec.toNat_inj, BitVec.toNat_add, BitVec.toNat_setWidth, Nat.mod_eq_of_lt (a := len.toNat) (by omega)]
    rfl
  rw [ne_eq, hsize, BitVec.toInt_eq_toNat_cond]
  split_ifs <;> omega

theorem way_auth_max_len_le (hlimit : 0 ≤ out_max_len.toInt) :
    0 ≤ (way_auth_max_len out_max_len).toInt ∧ (way_auth_max_len out_max_len).toNat ≤ WAY_AUTH_MAX := by
  have hmax : WAY_AUTH_MAX = 4200 := rfl
  rw [way_auth_max_len]
  split_ifs with hlong
  · exact ⟨by decide, by decide⟩
  · refine ⟨hlimit, ?_⟩
    rw [BitVec.toInt_eq_toNat_cond] at hlong hlimit
    split_ifs at hlong hlimit <;> omega

theorem way_auth_max_len_neg (hlimit : out_max_len.toInt < 0) :
    way_auth_max_len out_max_len = out_max_len :=
  if_neg (by omega)

theorem way_auth_inBounds
    (hreads : ∀ span ∈ reads, span.Within body_len) (hcopies : answer.Copies 32) (hlen : answer.out_len.toNat ≤ WAY_AUTH_MAX) :
    (Reply.mk answer.client reads (answer.stores ++ marshall_way_auth answer out_max_len)
      ((40 + round_up answer.out_len).setWidth 16)).InBounds body_len := by
  have hroom : 32 + 8 + answer.out_len.toNat ≤ RPC_C_DG_MAX_PKT_BODY_SIZE := by
    rw [RPC_C_DG_MAX_PKT_BODY_SIZE]
    simp only [WAY_AUTH_MAX, RPC_C_DG_MAX_PKT_SIZE, RPC_C_DG_RAW_PKT_HDR_SIZE] at hlen ⊢
    omega
  have hmarshalled : marshall_way_auth answer out_max_len = (marshall_way_auth answer out_max_len).take 5 ++
      [⟨⟨(32 : ℕ) + (round_up answer.out_len).toInt, 4⟩, .number (told_len answer.out_len out_max_len)⟩,
        ⟨⟨(32 : ℕ) + 4 + (round_up answer.out_len).toInt, 4⟩, .status answer.st⟩] := rfl
  exact inBounds_around hreads hcopies hroom rfl (by simp [marshall_way_auth]) hmarshalled rfl

theorem conv_stub_who_are_you_auth_inBounds_iff (hlen : 20 ≤ rqe.hdrp.len.toNat) :
    ((conv_stub_who_are_you_auth order services client rqe).after common_spans).InBounds rqe.hdrp.len.toNat ↔
      WayAuthFits order services client rqe := by
  have hsplit := way_auth_size_iff (unmarshall_32 order rqe 20) rqe.hdrp.len
  by_cases hfills : 0 ≤ (unmarshall_32 order rqe 20).toInt ∧ (unmarshall_32 order rqe 20).toInt + 32 = rqe.hdrp.len.toNat
  · obtain ⟨hnonneg, hsize⟩ := hfills
    rw [conv_stub_who_are_you_auth, if_neg (hsplit.not.mpr (not_not.mpr ⟨hnonneg, hsize⟩))]
    generalize hlimit : unmarshall_32 order rqe (28 + (unmarshall_32 order rqe 20).toInt) = limit
    have hreads : ∀ span ∈ common_spans ++ ([⟨20, 4⟩, ⟨28 + (unmarshall_32 order rqe 20).toInt, 4⟩] ++
        (conv_who_are_you_auth services client (clt_actid order rqe) (clt_boot order rqe) rqe.args 24
          (unmarshall_32 order rqe 20) (way_auth_max_len limit) 32).reads), span.Within rqe.hdrp.len.toNat := by
      intro span hmem
      obtain hcommon | hmem := List.mem_append.mp hmem
      · exact common_spans_within hlen hcommon
      · obtain hlengths | hchallenge := List.mem_append.mp hmem
        · simp only [List.mem_cons, List.not_mem_nil, or_false] at hlengths
          obtain rfl | rfl := hlengths <;> constructor <;> dsimp only <;> omega
        · have hspan := conv_who_are_you_auth_reads hchallenge
          constructor <;> omega
    constructor
    · intro h
      refine ⟨hnonneg, hsize, fun hcredentials => ?_⟩
      rw [hlimit]
      by_contra hneg
      rw [way_auth_max_len_neg (not_le.mp hneg)] at h
      obtain ⟨store, hmem, hstart, hlong⟩ := conv_who_are_you_auth_overruns (not_le.mp hneg) hcredentials
      refine Reply.not_inBounds (List.mem_append_left _ hmem) ?_ h
      rw [hstart, RPC_C_DG_MAX_PKT_BODY_SIZE, RPC_C_DG_MAX_PKT_SIZE, RPC_C_DG_RAW_PKT_HDR_SIZE]
      omega
    · intro h
      by_cases hcredentials : HasCredentials order services client rqe
      · have hpositive := h.limit hcredentials
        rw [hlimit] at hpositive
        obtain ⟨hmax, hroom⟩ := way_auth_max_len_le hpositive
        obtain ⟨hcopies, hout⟩ := conv_who_are_you_auth_copies hmax
        exact way_auth_inBounds hreads hcopies (hout.trans hroom)
      · obtain ⟨hstores, hout⟩ := conv_who_are_you_auth_refused (way_auth_max_len limit) hcredentials
        refine way_auth_inBounds hreads (fun store hmem => ?_) ?_
        · rw [hstores] at hmem
          simp at hmem
        · rw [hout]
          exact Nat.zero_le _
  · rw [conv_stub_who_are_you_auth, if_pos (hsplit.mpr hfills)]
    refine iff_of_false (fun h => ?_) fun h => hfills ⟨h.nonneg, h.size⟩
    obtain ⟨store, hmem, _⟩ := h.ends
    exact List.not_mem_nil hmem

/-- The longest piece of the credentials that a reply to `conv_who_are_you_auth_more` has room for. -/
def WAY_AUTH_MORE_MAX : ℕ := RPC_C_DG_MAX_PKT_BODY_SIZE - 20

/-- The piece that is asked for is no longer than a reply has room for: the rest of the credentials when it reaches their
end or its end is no index, and the limit itself when it stays in front of their end. -/
def PieceFits (info_len index : ℕ) (out_max_len : ℤ) : Prop :=
  if 0 ≤ index + out_max_len ∧ index + out_max_len < info_len then 0 ≤ out_max_len ∧ out_max_len ≤ WAY_AUTH_MORE_MAX
  else info_len - index ≤ WAY_AUTH_MORE_MAX

variable (order client rqe)

/-- A request for more of the credentials has an index and a limit, and the piece that it asks for fits. -/
structure WayAuthMoreFits : Prop where
  long : 28 ≤ rqe.hdrp.len.toNat
  piece : ∀ ccall info, conv_common client (clt_actid order rqe) (clt_boot order rqe) = .ok ccall →
    ccall.auth_way_info = some info → (unmarshall_32 order rqe 20).toNat < info.data.length →
    PieceFits info.data.length (unmarshall_32 order rqe 20).toNat (unmarshall_32 order rqe 24).toInt

variable {order client rqe}

theorem way_auth_more_inBounds
    (hreads : ∀ span ∈ reads, span.Within body_len) (hcopies : answer.Copies 12)
    (hlen : answer.out_len.toNat ≤ WAY_AUTH_MORE_MAX) :
    (Reply.mk answer.client reads (answer.stores ++ marshall_way_auth_more answer out_max_len)
      ((20 + round_up answer.out_len).setWidth 16)).InBounds body_len := by
  have hroom : 12 + 8 + answer.out_len.toNat ≤ RPC_C_DG_MAX_PKT_BODY_SIZE := by
    have hmax : WAY_AUTH_MORE_MAX + 20 = RPC_C_DG_MAX_PKT_BODY_SIZE := rfl
    omega
  have hmarshalled : marshall_way_auth_more answer out_max_len = (marshall_way_auth_more answer out_max_len).take 3 ++
      [⟨⟨(12 : ℕ) + (round_up answer.out_len).toInt, 4⟩, .number (told_len answer.out_len out_max_len)⟩,
        ⟨⟨(12 : ℕ) + 4 + (round_up answer.out_len).toInt, 4⟩, .status answer.st⟩] := rfl
  exact inBounds_around hreads hcopies hroom rfl (by simp [marshall_way_auth_more]) hmarshalled rfl

theorem way_auth_more_fits
    {value : Stored} (hstores : answer.stores = [⟨⟨12, answer.out_len.toNat⟩, value⟩])
    (h : (Reply.mk answer.client reads (answer.stores ++ marshall_way_auth_more answer out_max_len)
      ((20 + round_up answer.out_len).setWidth 16)).InBounds body_len) : answer.out_len.toNat ≤ WAY_AUTH_MORE_MAX := by
  have hmax : WAY_AUTH_MORE_MAX = 4220 := rfl
  have hbody : RPC_C_DG_MAX_PKT_BODY_SIZE = 4240 := rfl
  have hcopied := (h.stores ⟨⟨12, answer.out_len.toNat⟩, value⟩ (by simp [hstores])).stop
  have hlast := (h.stores ⟨⟨16 + (round_up answer.out_len).toInt, 4⟩, .status answer.st⟩
    (by simp [marshall_way_auth_more])).stop
  dsimp only at hcopied hlast
  rw [toInt_round_up (by omega)] at hlast
  omega

theorem conv_who_are_you_auth_more_known {actuid : uuid_t} {boot_time index : BitVec 32} {ccall : rpc_dg_ccall_t}
    {info : sec_krb_message} (out_max_len : BitVec 32) (hcommon : conv_common client actuid boot_time = .ok ccall) (hinfo : ccall.auth_way_info = some info)
    (hindex : index.toNat < info.data.length) :
    (∃ value, (conv_who_are_you_auth_more client actuid boot_time index out_max_len 12).stores =
      [⟨⟨12, (conv_who_are_you_auth_more client actuid boot_time index out_max_len 12).out_len.toNat⟩, value⟩]) ∧
    ((conv_who_are_you_auth_more client actuid boot_time index out_max_len 12).out_len.toNat ≤ WAY_AUTH_MORE_MAX ↔
      PieceFits info.data.length index.toNat out_max_len.toInt) := by
  have hmax : WAY_AUTH_MORE_MAX = 4220 := rfl
  have hlt := info.length_lt
  have hout := out_max_len.isLt
  have hlength : (BitVec.ofNat 32 info.data.length).toNat = info.data.length := by
    rw [BitVec.toNat_ofNat]
    omega
  have hpositive : ¬ (BitVec.ofNat 32 info.data.length = 0) := by
    rw [← BitVec.toNat_inj, hlength]
    exact Nat.ne_zero_of_lt hindex
  have hwithin : ¬ index ≥ BitVec.ofNat 32 info.data.length := by
    rw [ge_iff_le, BitVec.le_def, hlength]
    omega
  have hsum : index + out_max_len ≥ BitVec.ofNat 32 info.data.length ↔
      ¬ (0 ≤ index.toNat + out_max_len.toInt ∧ index.toNat + out_max_len.toInt < info.data.length) := by
    rw [ge_iff_le, BitVec.le_def, hlength, BitVec.toNat_add, BitVec.toInt_eq_toNat_cond]
    split_ifs <;> omega
  simp only [conv_who_are_you_auth_more, hcommon, hinfo, Option.map_some, Option.getD_some, Option.isNone_some, hpositive,
    hwithin, or_self, Bool.false_eq_true, if_false]
  by_cases hend : index + out_max_len ≥ BitVec.ofNat 32 info.data.length
  · rw [if_pos hend, PieceFits, if_neg (hsum.mp hend)]
    refine ⟨⟨_, rfl⟩, ?_⟩
    dsimp only
    rw [BitVec.toNat_sub_of_le (by rw [BitVec.le_def]; omega), hlength]
  · rw [if_neg hend, PieceFits, if_pos (not_not.mp (hsum.not.mp hend))]
    refine ⟨⟨_, rfl⟩, ?_⟩
    dsimp only
    rw [BitVec.toInt_eq_toNat_cond]
    split_ifs <;> omega

theorem conv_who_are_you_auth_more_unknown {actuid : uuid_t} {boot_time index : BitVec 32} (out_max_len : BitVec 32)
    (hnone : ¬ ∃ ccall info, conv_common client actuid boot_time = .ok ccall ∧ ccall.auth_way_info = some info ∧
      index.toNat < info.data.length) :
    (conv_who_are_you_auth_more client actuid boot_time index out_max_len 12).out_len = 0 ∧
      (conv_who_are_you_auth_more client actuid boot_time index out_max_len 12).Copies 12 := by
  rw [conv_who_are_you_auth_more]
  split
  · exact ⟨rfl, fun store hmem => absurd hmem List.not_mem_nil⟩
  · next ccall hcommon =>
    have hbad : ccall.auth_way_info.isNone ∨
        BitVec.ofNat 32 ((ccall.auth_way_info.map fun info => info.data.length).getD 0) = 0 ∨
        index ≥ BitVec.ofNat 32 ((ccall.auth_way_info.map fun info => info.data.length).getD 0) := by
      cases hinfo : ccall.auth_way_info with
      | none => exact .inl rfl
      | some info =>
        have hlt := info.length_lt
        refine .inr (.inr ?_)
        rw [Option.map_some, Option.getD_some, ge_iff_le, BitVec.le_def, BitVec.toNat_ofNat, Nat.mod_eq_of_lt (by omega)]
        by_contra hindex
        exact hnone ⟨ccall, info, hcommon, hinfo, by omega⟩
    dsimp only
    rw [if_pos hbad]
    refine ⟨rfl, fun store hmem => ?_⟩
    obtain rfl := List.mem_singleton.mp hmem
    exact ⟨rfl, le_rfl⟩

theorem conv_who_are_you_auth_more_reads (actuid : uuid_t) (boot_time index out_max_len : BitVec 32) :
    (conv_who_are_you_auth_more client actuid boot_time index out_max_len 12).reads = [] := by
  rw [conv_who_are_you_auth_more]
  split
  · rfl
  · dsimp only
    split_ifs <;> rfl

theorem conv_stub_who_are_you_auth_more_inBounds_iff (hlen : 20 ≤ rqe.hdrp.len.toNat) :
    ((conv_stub_who_are_you_auth_more order client rqe).after common_spans).InBounds rqe.hdrp.len.toNat ↔
      WayAuthMoreFits order client rqe := by
  have hreads (hlong : 28 ≤ rqe.hdrp.len.toNat) : ∀ span ∈ common_spans ++ ([⟨20, 4⟩, ⟨24, 4⟩] ++
      (conv_who_are_you_auth_more client (clt_actid order rqe) (clt_boot order rqe) (unmarshall_32 order rqe 20)
        (unmarshall_32 order rqe 24) 12).reads), span.Within rqe.hdrp.len.toNat := by
    intro span hmem
    rw [conv_who_are_you_auth_more_reads, List.append_nil] at hmem
    obtain hcommon | hmem := List.mem_append.mp hmem
    · exact common_spans_within hlen hcommon
    · simp only [List.mem_cons, List.not_mem_nil, or_false] at hmem
      obtain rfl | rfl := hmem <;> constructor <;> dsimp only <;> omega
  constructor
  · intro h
    refine ⟨?_, fun ccall info hcommon hinfo hindex => ?_⟩
    · have hlimit := (h.reads ⟨24, 4⟩ (by simp [conv_stub_who_are_you_auth_more, Reply.after])).stop
      dsimp only at hlimit
      omega
    · obtain ⟨⟨value, hstores⟩, hpiece⟩ := conv_who_are_you_auth_more_known (unmarshall_32 order rqe 24)
        hcommon hinfo hindex
      exact hpiece.mp (way_auth_more_fits hstores h)
  · intro h
    have hfits : (conv_who_are_you_auth_more client (clt_actid order rqe) (clt_boot order rqe) (unmarshall_32 order rqe 20)
          (unmarshall_32 order rqe 24) 12).out_len.toNat ≤ WAY_AUTH_MORE_MAX ∧
        (conv_who_are_you_auth_more client (clt_actid order rqe) (clt_boot order rqe) (unmarshall_32 order rqe 20)
          (unmarshall_32 order rqe 24) 12).Copies 12 := by
      by_cases hsome : ∃ ccall info, conv_common client (clt_actid order rqe) (clt_boot order rqe) = .ok ccall ∧
          ccall.auth_way_info = some info ∧ (unmarshall_32 order rqe 20).toNat < info.data.length
      · obtain ⟨ccall, info, hcommon, hinfo, hindex⟩ := hsome
        obtain ⟨⟨value, hstores⟩, hpiece⟩ := conv_who_are_you_auth_more_known (unmarshall_32 order rqe 24) hcommon hinfo hindex
        refine ⟨hpiece.mpr (h.piece ccall info hcommon hinfo hindex), fun store hmem => ?_⟩
        rw [hstores] at hmem
        obtain rfl := List.mem_singleton.mp hmem
        exact ⟨rfl, le_rfl⟩
      · obtain ⟨hout, hcopies⟩ := conv_who_are_you_auth_more_unknown (unmarshall_32 order rqe 24) hsome
        rw [hout]
        exact ⟨Nat.zero_le _, hcopies⟩
    exact way_auth_more_inBounds (hreads h.long) hfits.2 hfits.1

/-- A callback that may be handled: it is dropped, or it asks for nothing beyond the table of stubs, its challenge fits, or
the piece of the credentials that it asks for does. -/
structure Answerable (order : ByteOrder) (services : Services) (client : Client) (rqe : rpc_dg_recvq_elt_t) : Prop where
  table : rqe.hdrp.opnum ≠ 5
  way_auth : rqe.hdrp.opnum = 3 → WayAuthFits order services client rqe
  way_auth_more : rqe.hdrp.opnum = 4 → WayAuthMoreFits order client rqe

/-- `handle_conv_int` drops a packet that is no callback or has no room for the first arguments. -/
def Curious (rqe : rpc_dg_recvq_elt_t) : Prop :=
  rqe.hdrp.if_vers ≠ conv_v3_0_vers ∨ rqe.hdrp.opnum.toNat > 5 ∨ rqe.hdrp.len.toNat < CONV_MIN_REQUEST_LEN

section

variable (hlen : 20 ≤ body_len)

include hlen

theorem inBounds_of_fixed {reply : Reply} (hreads : reply.reads = []) (hroom : reply.len.toNat ≤ RPC_C_DG_MAX_PKT_BODY_SIZE)
    (hstores : ∀ store ∈ reply.stores, 0 ≤ store.start ∧ store.start + store.size ≤ reply.len.toNat)
    (hlast : ∃ store ∈ reply.stores, store.start + store.size = reply.len.toNat) :
    (reply.after common_spans).InBounds body_len := by
  refine Reply.inBounds_of_last (fun span hmem => ?_) hroom hstores hlast
  rw [Reply.after, hreads, List.append_nil] at hmem
  exact common_spans_within hlen hmem

theorem conv_stub_who_are_you_inBounds : ((conv_stub_who_are_you order client rqe).after common_spans).InBounds body_len := by
  have hroom : WAY_RESPONSE_LEN.toNat ≤ RPC_C_DG_MAX_PKT_BODY_SIZE := by decide
  exact inBounds_of_fixed hlen rfl hroom (by simp [conv_stub_who_are_you, WAY_RESPONSE_LEN])
    (by simp [conv_stub_who_are_you, WAY_RESPONSE_LEN])

theorem conv_stub_who_are_you2_inBounds : ((conv_stub_who_are_you2 order client rqe).after common_spans).InBounds body_len := by
  have hroom : WAY2_RESPONSE_LEN.toNat ≤ RPC_C_DG_MAX_PKT_BODY_SIZE := by decide
  exact inBounds_of_fixed hlen rfl hroom (by simp [conv_stub_who_are_you2, WAY2_RESPONSE_LEN])
    (by simp [conv_stub_who_are_you2, WAY2_RESPONSE_LEN])

theorem conv_stub_are_you_there_inBounds : ((conv_stub_are_you_there order client rqe).after common_spans).InBounds body_len := by
  have hroom : AYT_RESPONSE_LEN.toNat ≤ RPC_C_DG_MAX_PKT_BODY_SIZE := by decide
  exact inBounds_of_fixed hlen rfl hroom (by simp [conv_stub_are_you_there, AYT_RESPONSE_LEN])
    (by simp [conv_stub_are_you_there, AYT_RESPONSE_LEN])

end

theorem handle_conv_int_curious (order : ByteOrder) (services : Services) (client : Client) {rqe : rpc_dg_recvq_elt_t}
    (hcurious : Curious rqe) : handle_conv_int order services client rqe = .dropped :=
  if_pos hcurious

theorem handle_conv_int_stub (order : ByteOrder) (services : Services) (client : Client) {rqe : rpc_dg_recvq_elt_t}
    (hcurious : ¬ Curious rqe) {stub : Client → rpc_dg_recvq_elt_t → Reply}
    (hstub : (conv_stubs order services)[rqe.hdrp.opnum.toNat]? = some stub) :
    handle_conv_int order services client rqe = .replied ((stub client rqe).after common_spans) := by
  refine (if_neg hcurious).trans ?_
  rw [hstub]

theorem handle_conv_int_undefined (order : ByteOrder) (services : Services) (client : Client) {rqe : rpc_dg_recvq_elt_t}
    (hcurious : ¬ Curious rqe) (hstub : (conv_stubs order services)[rqe.hdrp.opnum.toNat]? = none) :
    handle_conv_int order services client rqe = .undefined := by
  refine (if_neg hcurious).trans ?_
  rw [hstub]

/-- A conversation callback stays in bounds exactly when it may be handled. -/
theorem handle_conv_int_inBounds_iff (order : ByteOrder) (services : Services) (client : Client) (rqe : rpc_dg_recvq_elt_t) :
    (handle_conv_int order services client rqe).InBounds rqe.hdrp.len.toNat ↔
      Curious rqe ∨ Answerable order services client rqe := by
  by_cases hcurious : Curious rqe
  · rw [handle_conv_int_curious order services client hcurious]
    exact iff_of_true trivial (.inl hcurious)
  · have hopnum : rqe.hdrp.opnum.toNat ≤ 5 := Nat.not_lt.mp fun h => hcurious (.inr (.inl h))
    have hlen : 20 ≤ rqe.hdrp.len.toNat := Nat.not_lt.mp fun h => hcurious (.inr (.inr h))
    rw [or_iff_right hcurious]
    obtain hplain | hauth | hmore | hbeyond : rqe.hdrp.opnum.toNat < 3 ∨ rqe.hdrp.opnum.toNat = 3 ∨
        rqe.hdrp.opnum.toNat = 4 ∨ rqe.hdrp.opnum.toNat = 5 := by omega
    · refine iff_of_true ?_ ⟨fun h => ?_, fun h => ?_, fun h => ?_⟩
      · obtain hop | hop | hop : rqe.hdrp.opnum.toNat = 0 ∨ rqe.hdrp.opnum.toNat = 1 ∨ rqe.hdrp.opnum.toNat = 2 := by omega
        · rw [handle_conv_int_stub order services client hcurious (by rw [hop]; rfl)]
          exact conv_stub_who_are_you_inBounds hlen
        · rw [handle_conv_int_stub order services client hcurious (by rw [hop]; rfl)]
          exact conv_stub_who_are_you2_inBounds hlen
        · rw [handle_conv_int_stub order services client hcurious (by rw [hop]; rfl)]
          exact conv_stub_are_you_there_inBounds hlen
      · exact absurd hplain (by rw [h]; decide)
      · exact absurd hplain (by rw [h]; decide)
      · exact absurd hplain (by rw [h]; decide)
    · have hop : rqe.hdrp.opnum = 3 := BitVec.eq_of_toNat_eq hauth
      rw [handle_conv_int_stub order services client hcurious (by rw [hauth]; rfl)]
      refine (conv_stub_who_are_you_auth_inBounds_iff hlen).trans ⟨fun h => ⟨?_, fun _ => h, fun h4 => ?_⟩, fun h => h.way_auth hop⟩
      · rw [hop]
        decide
      · exact absurd (hop.symm.trans h4) (by decide)
    · have hop : rqe.hdrp.opnum = 4 := BitVec.eq_of_toNat_eq hmore
      rw [handle_conv_int_stub order services client hcurious (by rw [hmore]; rfl)]
      refine (conv_stub_who_are_you_auth_more_inBounds_iff hlen).trans
        ⟨fun h => ⟨?_, fun h3 => ?_, fun _ => h⟩, fun h => h.way_auth_more hop⟩
      · rw [hop]
        decide
      · exact absurd (hop.symm.trans h3) (by decide)
    · have hop : rqe.hdrp.opnum = 5 := BitVec.eq_of_toNat_eq hbeyond
      rw [handle_conv_int_undefined order services client hcurious (by rw [hbeyond]; rfl)]
      exact iff_of_false id fun h => h.table hop

end WhoAreYouAuth

/-- A sixth operation is looked up behind the table of five, and a request for more of the credentials that ends after the
first arguments has its index and its limit read behind its body. -/
theorem conv_request_out_of_bounds :
    let client : Client := ⟨[], ⟨0, 0, 0, 0, 0, ⟨[0, 0, 0, 0, 0, 0], rfl⟩⟩⟩
    let services : Services := ⟨fun _ _ => (rpc_s_ok, ⟨[], by decide⟩), fun _ => true⟩
    ¬ (handle_conv_int .big services client ⟨⟨.big, 3, 5, 20⟩, fun _ => 0⟩).InBounds 20 ∧
      ¬ (handle_conv_int .big services client ⟨⟨.big, 3, 4, 20⟩, fun _ => 0⟩).InBounds 20 := by
  refine ⟨id, fun h => ?_⟩
  have hlimit := (h.reads ⟨24, 4⟩ (by decide)).stop
  exact absurd hlimit (by decide)

end dce.rpc.conv
