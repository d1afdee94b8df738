import Dce.Lib.BitSets
import Dce.Rpc.Recvq
import Dce.Rpc.XmitqFack

open lib

set_option linter.style.nameCheck false

namespace dce.rpc.fack

open dg (rpc_dg_recvq_t rpc_dg_recvq_elt_t RPC_C_DG_MUST_RECV_FRAG_SIZE)
open xmitq (rpc_dg_fackpkt_t RPC_C_DG_FACKPKT_BODY_VERS RPC_C_DG_RAW_FACKPKT_BODY_SIZE OFF_SERIAL_NUM OFF_SELACK_LEN OFF_SELACK)

section Masks

/-- The number of mask words for the fragments behind the next one, or a single one when there is no memory for more. -/
def num_elements (rq : rpc_dg_recvq_t) (mask_alloc : Bool) : ℕ :=
  let wanted := (rq.high_fragnum - rq.next_fragnum).toNat / 32 + 1
  if wanted = 1 ∨ mask_alloc then wanted else 1

/-- The loop that adds the received packets to the masks, up to the first one that is behind them. It ends with `none` when it
looks for the header of a packet that was handed out. -/
def add_received (next_fragnum : BitVec 16) : List rpc_dg_recvq_elt_t → List (BitVec 32) → Option (List (BitVec 32))
  | [], masks => some masks
  | rqe :: rest, masks =>
    rqe.fragnum.bind fun fragnum =>
      let shift := (fragnum - next_fragnum).toNat
      let max_shift := 32 * masks.length - 1
      if shift > max_shift then some masks else add_received next_fragnum rest (setBit masks shift)

/-- The selective acknowledgements of a receive queue. -/
def selack_masks (rq : rpc_dg_recvq_t) (mask_alloc : Bool) : Option (List (BitVec 32)) :=
  if serialLt rq.next_fragnum rq.high_fragnum then
    add_received rq.next_fragnum (rq.head.drop (dg.inorder_place rq)) (List.replicate (num_elements rq mask_alloc) 0)
  else some []

end Masks

section Body

/-- What a fack tells beside the receive queue: the sort of call and its reservations, whether packets are rationed, the sizes of
the call, the packet that induced the fack, and whether there is memory for a mask of several words. -/
structure Answering where
  is_server : Bool
  n_resvs : BitVec 8
  max_resvs : BitVec 8
  call_is_queued : Bool
  resv_granted : Bool
  is_rationing : Bool
  low_on_pkts : Bool
  max_rcv_tsdu : BitVec 32
  max_frag_size : BitVec 32
  window_size : BitVec 16
  rqe : Option rpc_dg_recvq_elt_t
  mask_alloc : Bool

/-- `RPC_C_DG_MAX_PKT_BODY_SIZE`, in the user space. -/
def RPC_C_DG_MAX_PKT_BODY_SIZE : BitVec 32 := 4240

def RPC_C_DG_RAW_PKT_HDR_SIZE : BitVec 32 := 80

def RPC_DG_NUM_PKTS_TO_FRAG_SIZE (n_pkts : BitVec 8) : BitVec 32 :=
  (n_pkts.setWidth 32 * RPC_C_DG_MAX_PKT_BODY_SIZE + RPC_C_DG_RAW_PKT_HDR_SIZE) &&& ~~~7

/-- The fragment size that is advertised: what can be received with the reservations. -/
def advertised_frag_size (a : Answering) : BitVec 32 :=
  if a.n_resvs.toNat ≥ a.max_resvs.toNat then a.max_frag_size
  else if a.is_server ∧ (a.n_resvs = 0 ∨ a.call_is_queued) then RPC_C_DG_MUST_RECV_FRAG_SIZE
  else if a.resv_granted then a.max_frag_size
  else if a.n_resvs = 0 then RPC_C_DG_MUST_RECV_FRAG_SIZE
  else RPC_DG_NUM_PKTS_TO_FRAG_SIZE a.n_resvs

def induced_serial (a : Answering) (rq : rpc_dg_recvq_t) : BitVec 16 :=
  match a.rqe with
  | none => rq.high_serial_num
  | some rqe => (rqe.hdrp.map (·.serial)).getD rq.head_serial_num

/-- The window size that is advertised, in kilobytes unless packets are short. -/
def advertised_window (a : Answering) (rq : rpc_dg_recvq_t) : BitVec 16 :=
  if a.n_resvs = 0 ∧ a.is_server then 0
  else if a.is_rationing then 1
  else if a.low_on_pkts then 2
  else
    let slot := if rq.high_rcv_frag_size.toNat > RPC_C_DG_MUST_RECV_FRAG_SIZE.toNat then a.max_frag_size
      else RPC_C_DG_MUST_RECV_FRAG_SIZE
    let room := ((rq.max_queue_len.setWidth 32 - rq.queue_len.setWidth 32) * slot) >>> 10
    if a.window_size.toNat < (room.setWidth 16).toNat then a.window_size else room.setWidth 16

/-- `rpc_dg_fackpkt_body_t` behind its version. -/
structure rpc_dg_fackpkt_body_t where
  window_size : BitVec 16
  max_tsdu : BitVec 32
  max_frag_size : BitVec 32
  serial_num : BitVec 16
  selack : List (BitVec 32)

variable (order : ByteOrder)

def fixed_octets (body : rpc_dg_fackpkt_body_t) : List Byte :=
  [RPC_C_DG_FACKPKT_BODY_VERS, 0] ++ order.store 2 body.window_size.toNat ++ order.store 4 body.max_tsdu.toNat ++
    order.store 4 body.max_frag_size.toNat ++ order.store 2 body.serial_num.toNat ++ order.store 2 body.selack.length

/-- The octets of a body. There is a mask word in it even when none counts. -/
def body_octets (body : rpc_dg_fackpkt_body_t) : List Byte :=
  fixed_octets order body ++
    (if body.selack = [] then [0] else body.selack).flatMap fun mask => order.store 4 mask.toNat

def fack_body (a : Answering) (rq : rpc_dg_recvq_t) (selack : List (BitVec 32)) : rpc_dg_fackpkt_body_t where
  window_size := advertised_window a rq
  max_tsdu := if a.max_rcv_tsdu.toNat < a.max_frag_size.toNat then a.max_rcv_tsdu else a.max_frag_size
  max_frag_size := advertised_frag_size a
  serial_num := induced_serial a rq
  selack

/-- `rpc__dg_call_xmit_fack`: the packet that is sent, as it lies in the memory of the one that receives it. -/
def rpc__dg_call_xmit_fack (a : Answering) (rq : rpc_dg_recvq_t) (memory : ℕ → Byte) : Option rpc_dg_fackpkt_t :=
  (selack_masks rq a.mask_alloc).map fun selack =>
    { fragnum := rq.next_fragnum - 1
      len := BitVec.ofNat 16 (RPC_C_DG_RAW_FACKPKT_BODY_SIZE + 4 * (selack.length - 1))
      drep := order
      body := fun i => ((body_octets order (fack_body a rq selack))[i]?).getD (memory i) }

end Body

section Octets

variable {order host : ByteOrder} {pkt : rpc_dg_fackpkt_t}

theorem reverse_store (hne : order ≠ host) (size v : ℕ) : (order.store size v).reverse = host.store size v := by
  cases order with
  | big =>
    cases host with
    | big => exact absurd rfl hne
    | little => simp [ByteOrder.store]
  | little =>
    cases host with
    | big => rfl
    | little => exact absurd rfl hne

theorem field_of_store {off size v : ℕ} (hdrep : pkt.drep = order)
    (hbody : ∀ i (hi : i < (order.store size v).length), pkt.body (off + i) = (order.store size v)[i]) :
    xmitq.field host pkt off size = v % 256 ^ size := by
  have hbytes : (List.range size).map (fun i => pkt.body (off + i)) = order.store size v := by
    refine List.ext_getElem (by simp) fun i _ hi => ?_
    simpa using hbody i hi
  unfold xmitq.field
  rw [hbytes, hdrep]
  dsimp only
  by_cases hsame : order = host
  · rw [if_neg (not_not.mpr hsame), hsame, ByteOrder.load_store]
  · rw [if_pos hsame, reverse_store hsame, ByteOrder.load_store]

theorem getElem_middle {left middle right : List Byte} {i : ℕ} (hi : i < middle.length) :
    (left ++ middle ++ right)[left.length + i]? = some middle[i] := by
  rw [List.append_assoc, List.getElem?_append_right (Nat.le_add_right _ _), Nat.add_sub_cancel_left,
    List.getElem?_append_left hi, List.getElem?_eq_getElem hi]

@[simp] theorem length_fixed_octets (body : rpc_dg_fackpkt_body_t) : (fixed_octets order body).length = OFF_SELACK := by
  simp [fixed_octets, OFF_SELACK]

theorem length_mask_octets (masks : List (BitVec 32)) :
    (masks.flatMap fun mask => order.store 4 mask.toNat).length = 4 * masks.length := by
  induction masks with
  | nil => rfl
  | cons mask rest ih =>
    rw [List.flatMap_cons, List.length_append, ByteOrder.length_store, ih, List.length_cons]
    omega

theorem getElem_mask_octets {masks : List (BitVec 32)} {word i : ℕ} (hword : word < masks.length) (hi : i < 4) :
    (masks.flatMap fun mask => order.store 4 mask.toNat)[4 * word + i]? =
      (order.store 4 masks[word].toNat)[i]? := by
  have hsplit : masks = masks.take word ++ masks[word] :: masks.drop (word + 1) := by
    rw [List.getElem_cons_drop, List.take_append_drop]
  have htake : ((masks.take word).flatMap fun mask => order.store 4 mask.toNat).length = 4 * word := by
    rw [length_mask_octets, List.length_take, min_eq_left hword.le]
  have hlen : i < (order.store 4 masks[word].toNat).length := by simpa using hi
  conv_lhs => rw [hsplit]
  rw [List.flatMap_append, List.flatMap_cons, ← htake, List.getElem?_append_right (Nat.le_add_right _ _),
    Nat.add_sub_cancel_left, List.getElem?_append_left hlen]

variable {a : Answering} {rq : rpc_dg_recvq_t} {memory : ℕ → Byte}

theorem selack_masks_length {mask_alloc : Bool} {masks : List (BitVec 32)} (hmasks : selack_masks rq mask_alloc = some masks) :
    masks.length ≤ 2048 := by
  have hadd : ∀ (rqes : List rpc_dg_recvq_elt_t) (words result : List (BitVec 32)),
      add_received rq.next_fragnum rqes words = some result → result.length = words.length := by
    intro rqes
    induction rqes with
    | nil =>
      intro words result hresult
      rw [Option.some.inj hresult]
    | cons rqe rest ih =>
      intro words result hresult
      rw [add_received] at hresult
      obtain ⟨fragnum, -, hrest⟩ := Option.bind_eq_some_iff.mp hresult
      dsimp only at hrest
      split_ifs at hrest
      · rw [Option.some.inj hrest]
      · rw [ih _ _ hrest, length_setBit]
  unfold selack_masks at hmasks
  split_ifs at hmasks
  · rw [hadd _ _ _ hmasks, List.length_replicate, num_elements]
    have hlt := (rq.high_fragnum - rq.next_fragnum).isLt
    split_ifs
    · omega
    · omega
  · rw [← Option.some.inj hmasks]
    exact Nat.zero_le _

theorem fack_octets {selack : List (BitVec 32)} (hpkt : pkt.body = fun i =>
      ((body_octets order (fack_body a rq selack))[i]?).getD (memory i)) :
    xmitq.vers pkt = RPC_C_DG_FACKPKT_BODY_VERS ∧
      ∀ i (hi : i < (order.store 2 selack.length).length),
        pkt.body (OFF_SELACK_LEN + i) = (order.store 2 selack.length)[i] := by
  refine ⟨?_, fun i hi => ?_⟩
  · rw [xmitq.vers, hpkt]
    rfl
  · have hmiddle : body_octets order (fack_body a rq selack) =
        ([RPC_C_DG_FACKPKT_BODY_VERS, 0] ++ order.store 2 (fack_body a rq selack).window_size.toNat ++
          order.store 4 (fack_body a rq selack).max_tsdu.toNat ++ order.store 4 (fack_body a rq selack).max_frag_size.toNat ++
          order.store 2 (fack_body a rq selack).serial_num.toNat) ++ order.store 2 selack.length ++
          (if selack = [] then [0] else selack).flatMap fun mask => order.store 4 mask.toNat := rfl
    have hleft : ([RPC_C_DG_FACKPKT_BODY_VERS, 0] ++ order.store 2 (fack_body a rq selack).window_size.toNat ++
        order.store 4 (fack_body a rq selack).max_tsdu.toNat ++ order.store 4 (fack_body a rq selack).max_frag_size.toNat ++
        order.store 2 (fack_body a rq selack).serial_num.toNat).length = OFF_SELACK_LEN := by
      simp [OFF_SELACK_LEN]
    rw [hpkt]
    dsimp only
    rw [hmiddle, ← hleft, getElem_middle hi, Option.getD_some]

theorem fack_read (host : ByteOrder) (hpkt : rpc__dg_call_xmit_fack order a rq memory = some pkt) :
    ∃ selack, selack_masks rq a.mask_alloc = some selack ∧ pkt.fragnum = rq.next_fragnum - 1 ∧ pkt.len > 12 ∧
      xmitq.using_selacks pkt = true ∧ xmitq.masks host pkt = selack := by
  obtain ⟨selack, hselack, hsent⟩ := Option.map_eq_some_iff.mp hpkt
  have hlen := selack_masks_length hselack
  have hcount : RPC_C_DG_RAW_FACKPKT_BODY_SIZE + 4 * (selack.length - 1) < 2 ^ 16 := by
    dsimp only [RPC_C_DG_RAW_FACKPKT_BODY_SIZE]
    omega
  have hbody : pkt.body = fun i => ((body_octets order (fack_body a rq selack))[i]?).getD (memory i) := by rw [← hsent]
  have hdrep : pkt.drep = order := by rw [← hsent]
  obtain ⟨hvers, hsize⟩ := fack_octets hbody
  have hselack_len : (xmitq.selack_len host pkt).toNat = selack.length := by
    rw [xmitq.selack_len, field_of_store hdrep hsize, BitVec.toNat_ofNat]
    omega
  have hlong : pkt.len > 12 := by
    rw [← hsent]
    change (12 : BitVec 16).toNat < (BitVec.ofNat 16 _).toNat
    rw [BitVec.toNat_ofNat, Nat.mod_eq_of_lt hcount]
    exact Nat.lt_of_lt_of_le (by decide) (Nat.le_add_right _ _)
  refine ⟨selack, hselack, by rw [← hsent], hlong, by simpa [xmitq.using_selacks, hvers] using hlong, ?_⟩
  refine List.ext_getElem (by simp [xmitq.masks, hselack_len]) fun word hword hword' => ?_
  have hne : selack ≠ [] := List.ne_nil_of_length_pos (Nat.zero_lt_of_lt hword')
  have hread : ∀ i (hi : i < (order.store 4 selack[word].toNat).length),
      pkt.body (OFF_SELACK + 4 * word + i) = (order.store 4 selack[word].toNat)[i] := by
    intro i hi
    rw [hbody, body_octets]
    dsimp only
    rw [show (fack_body a rq selack).selack = selack from rfl, if_neg hne, Nat.add_assoc,
      ← length_fixed_octets (fack_body a rq selack), List.getElem?_append_right (Nat.le_add_right _ _),
      Nat.add_sub_cancel_left, getElem_mask_octets hword' (by simpa using hi), List.getElem?_eq_getElem hi, Option.getD_some]
  simp only [xmitq.masks, List.getElem_map, List.getElem_range]
  rw [xmitq.selack, field_of_store hdrep hread]
  apply BitVec.eq_of_toNat_eq
  rw [BitVec.toNat_ofNat]
  have hlt := selack[word].isLt
  omega

end Octets

end dce.rpc.fack
