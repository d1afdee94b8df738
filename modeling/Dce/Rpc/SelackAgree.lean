import Mathlib.Data.List.TakeWhile
import Dce.Rpc.CallXmitFack
import Dce.Rpc.RecvqOrder
import Dce.Rpc.XmitqSelack

open lib

namespace dce.rpc.fack

open dg (rpc_dg_recvq_t rpc_dg_recvq_elt_t)
open xmitq (rpc_dg_fackpkt_t rpc_dg_xmitq_t rpc_dg_xmitq_elt_t Shaped offset)

section Definitions

/-- The packets of a receive queue behind those that are in order. -/
def out_of_order (rq : rpc_dg_recvq_t) : List rpc_dg_recvq_elt_t := rq.head.drop (dg.inorder_place rq)

/-- The receiver has a fragment: it came in order, or it is queued out of order. -/
def holds (rq : rpc_dg_recvq_t) (fragnum : BitVec 16) : Prop :=
  serialLt fragnum rq.next_fragnum ∨ fragnum ∈ (out_of_order rq).map (·.hdr.fragnum)

instance holds_decidable (rq : rpc_dg_recvq_t) (fragnum : BitVec 16) : Decidable (holds rq fragnum) :=
  decidable_of_iff (serialLt fragnum rq.next_fragnum ∨ ((out_of_order rq).map (·.hdr.fragnum)).contains fragnum = true)
    (or_congr_right List.contains_iff_mem)

/-- The content of a receive queue: behind the next fragment, by less than half of the range of the numbers, packets that are out
of order and have their headers, in the order of their numbers, the last of which is the highest number seen. -/
structure Content (rq : rpc_dg_recvq_t) : Prop where
  headers : ∀ rqe ∈ out_of_order rq, rqe.taken = false
  behind : ∀ rqe ∈ out_of_order rq, 0 < offset rq.next_fragnum rqe.hdr.fragnum ∧
    offset rq.next_fragnum rqe.hdr.fragnum < 2 ^ 15
  sorted : (out_of_order rq).Pairwise fun a b =>
    offset rq.next_fragnum a.hdr.fragnum < offset rq.next_fragnum b.hdr.fragnum
  high_fragnum : ∀ last ∈ (out_of_order rq).getLast?, rq.high_fragnum = last.hdr.fragnum
  high_inorder : out_of_order rq = [] → ¬ serialLt rq.next_fragnum rq.high_fragnum

/-- A transmit queue matches a receive queue: the numbers of its fragments are in order around the one that is awaited next, less
than half of the range ahead of it, and nothing that was not sent is held or in front of what is held. -/
structure Matches (rq : rpc_dg_recvq_t) (sent unsent : List rpc_dg_xmitq_elt_t) : Prop where
  sorted : (sent ++ unsent).Pairwise fun a b => (a.fragnum - rq.next_fragnum).toInt < (b.fragnum - rq.next_fragnum).toInt
  near : ∀ xqe ∈ sent ++ unsent, (xqe.fragnum - rq.next_fragnum).toInt < 2 ^ 15 - 1
  unsent_behind : ∀ xqe ∈ unsent, 0 ≤ (xqe.fragnum - rq.next_fragnum).toInt ∧
    ∀ rqe ∈ out_of_order rq, (rqe.hdr.fragnum - rq.next_fragnum).toInt < (xqe.fragnum - rq.next_fragnum).toInt

/-- What a fack makes of a transmit queue when it drops some of the fragments: they are freed, every other one is kept, and those
that are marked for retransmission are not among them. -/
structure Drops (xq : rpc_dg_xmitq_t) (p : xmitq.Processed) (dropped : rpc_dg_xmitq_elt_t → Bool) : Prop where
  freed : p.freed = xq.queue.filter dropped
  kept : p.xq.queue.map (·.addr) = (xq.queue.filter fun xqe => !dropped xqe).map (·.addr)
  rexmitq : ∀ addr ∈ p.xq.rexmitq, ∃ xqe ∈ xq.queue, xqe.addr = addr ∧ dropped xqe = false

/-- The masks reach up to the highest fragment: there is memory for them, or one word is enough. -/
def MaskFits (rq : rpc_dg_recvq_t) (mask_alloc : Bool) : Prop :=
  mask_alloc = true ∨ (rq.high_fragnum - rq.next_fragnum).toNat < 32

end Definitions

section Encoding

variable {next_fragnum : BitVec 16} {rq : rpc_dg_recvq_t} {mask_alloc : Bool}

theorem add_received_spec {rqes : List rpc_dg_recvq_elt_t} (masks : List (BitVec 32)) (hsome : masks ≠ [])
    (hheaders : ∀ rqe ∈ rqes, rqe.taken = false) :
    ∃ result, add_received next_fragnum rqes masks = some result ∧ result.length = masks.length ∧
      (∀ d, bit result d = true → bit masks d = true ∨ ∃ rqe ∈ rqes, offset next_fragnum rqe.hdr.fragnum = d) ∧
      (∀ d, bit masks d = true → bit result d = true) ∧
      ((∀ rqe ∈ rqes, offset next_fragnum rqe.hdr.fragnum < 32 * masks.length) →
        ∀ rqe ∈ rqes, bit result (offset next_fragnum rqe.hdr.fragnum) = true) := by
  induction rqes generalizing masks with
  | nil => exact ⟨masks, rfl, rfl, fun d hd => .inl hd, fun d hd => hd, by simp⟩
  | cons rqe rest ih =>
    have hpos : 0 < masks.length := List.length_pos_iff.mpr hsome
    have hfragnum := dg.fragnum_eq (hheaders rqe List.mem_cons_self)
    rw [add_received, hfragnum, Option.bind_some]
    dsimp only
    have hoffset : (rqe.hdr.fragnum - next_fragnum).toNat = offset next_fragnum rqe.hdr.fragnum := rfl
    rw [hoffset]
    by_cases hbehind : offset next_fragnum rqe.hdr.fragnum > 32 * masks.length - 1
    · rw [if_pos hbehind]
      refine ⟨masks, rfl, rfl, fun d hd => .inl hd, fun d hd => hd, fun hall => ?_⟩
      have := hall rqe List.mem_cons_self
      omega
    · rw [if_neg hbehind]
      have hin : offset next_fragnum rqe.hdr.fragnum / 32 < masks.length := by omega
      obtain ⟨result, hresult, hlen, hfrom, hkeep, hall⟩ := ih (setBit masks (offset next_fragnum rqe.hdr.fragnum))
        (List.ne_nil_of_length_pos (by rwa [length_setBit])) (fun old hold => hheaders old (List.mem_cons_of_mem rqe hold))
      rw [length_setBit] at hlen hall
      refine ⟨result, hresult, hlen, fun d hd => ?_, fun d hd => ?_, fun hin' old hold => ?_⟩
      · obtain hset | ⟨old, hold, heq⟩ := hfrom d hd
        · rw [bit_setBit (by decide) hin, Bool.or_eq_true, decide_eq_true_iff] at hset
          obtain hbefore | rfl := hset
          · exact .inl hbefore
          · exact .inr ⟨rqe, List.mem_cons_self, rfl⟩
        · exact .inr ⟨old, List.mem_cons_of_mem rqe hold, heq⟩
      · refine hkeep d ?_
        rw [bit_setBit (by decide) hin, hd, Bool.true_or]
      · obtain rfl | hrest := List.mem_cons.mp hold
        · refine hkeep _ ?_
          rw [bit_setBit (by decide) hin, decide_eq_true rfl, Bool.or_true]
        · exact hall (fun other hother => hin' other (List.mem_cons_of_mem rqe hother)) old hrest

theorem Content.le_last (h : Content rq) {last rqe : rpc_dg_recvq_elt_t} (hlast : (out_of_order rq).getLast? = some last)
    (hrqe : rqe ∈ out_of_order rq) :
    offset rq.next_fragnum rqe.hdr.fragnum ≤ offset rq.next_fragnum last.hdr.fragnum := by
  obtain ⟨front, hfront⟩ := List.getLast?_eq_some_iff.mp hlast
  have hsorted := h.sorted
  rw [hfront] at hrqe hsorted
  rw [List.pairwise_append] at hsorted
  obtain hbefore | hend := List.mem_append.mp hrqe
  · exact (hsorted.2.2 rqe hbefore last (List.mem_singleton_self last)).le
  · obtain rfl : rqe = last := by simpa using hend
    exact le_rfl

theorem Content.masks (h : Content rq) :
    ∃ masks, selack_masks rq mask_alloc = some masks ∧
      (∀ d, bit masks d = true → ∃ rqe ∈ out_of_order rq, offset rq.next_fragnum rqe.hdr.fragnum = d) ∧
      (MaskFits rq mask_alloc →
        ∀ rqe ∈ out_of_order rq, bit masks (offset rq.next_fragnum rqe.hdr.fragnum) = true) ∧
      (1 < masks.length → ∃ rqe ∈ out_of_order rq,
        32 * (masks.length - 1) ≤ offset rq.next_fragnum rqe.hdr.fragnum) := by
  cases hlast : (out_of_order rq).getLast? with
  | none =>
    have hnone : out_of_order rq = [] := List.getLast?_eq_none_iff.mp hlast
    refine ⟨[], if_neg (h.high_inorder hnone), fun d hd => ?_, fun _ rqe hrqe => ?_, fun hlen => ?_⟩
    · rw [bit_of_length_le (Nat.zero_le _)] at hd
      exact absurd hd (by decide)
    · rw [hnone] at hrqe
      exact absurd hrqe List.not_mem_nil
    · exact absurd hlen (by decide)
  | some last =>
    have hmem : last ∈ out_of_order rq := List.mem_of_getLast? hlast
    have hhigh := h.high_fragnum last hlast
    obtain ⟨hpos, hnear⟩ := h.behind last hmem
    have hserial : serialLt rq.next_fragnum rq.high_fragnum := by
      rw [hhigh, serialLt, BitVec.toInt_eq_toNat_cond]
      unfold offset at hpos hnear
      split_ifs <;> bv_omega
    have hoffset : (rq.high_fragnum - rq.next_fragnum).toNat = offset rq.next_fragnum last.hdr.fragnum := by rw [hhigh]; rfl
    have hsome : List.replicate (num_elements rq mask_alloc) (0 : BitVec 32) ≠ [] := by
      refine List.ne_nil_of_length_pos ?_
      rw [List.length_replicate, num_elements]
      split_ifs <;> omega
    obtain ⟨masks, hmasks, hlen, hfrom, -, hall⟩ :=
      add_received_spec (List.replicate (num_elements rq mask_alloc) 0) hsome h.headers
    rw [List.length_replicate] at hlen hall
    refine ⟨masks, (if_pos hserial).trans hmasks, fun d hd => ?_, fun hfits rqe hrqe => ?_, fun hmany => ?_⟩
    · obtain hzero | hqueued := hfrom d hd
      · rw [bit_replicate_zero] at hzero
        exact absurd hzero (by decide)
      · exact hqueued
    · refine hall (fun old hold => ?_) rqe hrqe
      have hle := h.le_last hlast hold
      have hwanted : num_elements rq mask_alloc = (rq.high_fragnum - rq.next_fragnum).toNat / 32 + 1 := by
        refine if_pos ?_
        obtain halloc | hsmall := hfits
        · exact .inr halloc
        · left
          omega
      rw [hwanted, hoffset]
      omega
    · refine ⟨last, hmem, ?_⟩
      rw [hlen, num_elements] at hmany ⊢
      rw [hoffset] at hmany ⊢
      split_ifs at hmany ⊢
      · omega
      · omega

end Encoding

section Named

theorem mem_mask_numbers {is_last : Bool} {n : ℕ} {mask : BitVec 32} {selack_fragnum number : BitVec 16}
    (hmem : number ∈ xmitq.mask_numbers is_last n mask selack_fragnum) :
    ∃ j < n, number = selack_fragnum + BitVec.ofNat 16 j ∧ (is_last = true → ∃ i, j ≤ i ∧ mask.getLsbD i = true) := by
  induction n generalizing mask selack_fragnum with
  | zero => exact absurd hmem List.not_mem_nil
  | succ n ih =>
    rw [xmitq.mask_numbers] at hmem
    by_cases hdone : mask = 0 ∧ is_last = true
    · rw [if_pos hdone] at hmem
      exact absurd hmem List.not_mem_nil
    · rw [if_neg hdone] at hmem
      obtain rfl | hrest := List.mem_cons.mp hmem
      · refine ⟨0, Nat.succ_pos n, (BitVec.add_zero _).symm, fun hlast => ?_⟩
        have hne : mask ≠ 0 := fun hzero => hdone ⟨hzero, hlast⟩
        by_contra hnone
        refine hne (BitVec.eq_of_getLsbD_eq fun i _ => ?_)
        have hclear : mask.getLsbD i = false := Bool.eq_false_of_not_eq_true fun hset => hnone ⟨i, Nat.zero_le i, hset⟩
        exact hclear.trans BitVec.getLsbD_zero.symm
      · obtain ⟨j, hj, hnumber, hset⟩ := ih hrest
        refine ⟨j + 1, Nat.succ_lt_succ hj, by rw [hnumber]; bv_omega, fun hlast => ?_⟩
        obtain ⟨i, hi, hbit⟩ := hset hlast
        rw [BitVec.getLsbD_ushiftRight] at hbit
        exact ⟨1 + i, by omega, hbit⟩

theorem mem_numbers_named {masks : List (BitVec 32)} {selack_fragnum number : BitVec 16}
    (hmem : number ∈ xmitq.numbers_named masks selack_fragnum) :
    ∃ d < 32 * masks.length, number = selack_fragnum + BitVec.ofNat 16 d ∧
      (32 * (masks.length - 1) ≤ d → ∃ e, d ≤ e ∧ bit masks e = true) := by
  induction masks generalizing selack_fragnum with
  | nil => exact absurd hmem List.not_mem_nil
  | cons mask rest ih =>
    rw [xmitq.numbers_named] at hmem
    rw [List.length_cons, Nat.add_sub_cancel]
    obtain hhere | hrest := List.mem_append.mp hmem
    · obtain ⟨j, hj, hnumber, hset⟩ := mem_mask_numbers hhere
      refine ⟨j, by omega, hnumber, fun hend => ?_⟩
      have hlast : rest = [] := List.length_eq_zero_iff.mp (by omega)
      obtain ⟨i, hi, hbit⟩ := hset (by rw [hlast]; rfl)
      exact ⟨i, hi, by rw [bit_cons_of_lt mask rest (BitVec.lt_of_getLsbD hbit), hbit]⟩
    · obtain ⟨d, hd, hnumber, hset⟩ := ih hrest
      have hpos : 0 < rest.length := by omega
      refine ⟨32 + d, by omega, by rw [hnumber]; bv_omega, fun hend => ?_⟩
      obtain ⟨e, he, hbit⟩ := hset (by omega)
      exact ⟨32 + e, by omega, by rw [bit_cons_add mask rest e (by decide), hbit]⟩

end Named

section Agreement

variable {order host : ByteOrder} {a : Answering} {rq : rpc_dg_recvq_t} {memory : ℕ → Byte} {pkt : rpc_dg_fackpkt_t}
  {around : xmitq.Around} {xq : rpc_dg_xmitq_t} {sent unsent : List rpc_dg_xmitq_elt_t}

theorem not_serialLt {fragnum next_fragnum : BitVec 16} (hahead : 0 ≤ (fragnum - next_fragnum).toInt) :
    ¬ serialLt fragnum next_fragnum :=
  not_lt.mpr hahead

theorem holds_iff {fragnum : BitVec 16} (hahead : 0 ≤ (fragnum - rq.next_fragnum).toInt) :
    holds rq fragnum ↔ ∃ rqe ∈ out_of_order rq, offset rq.next_fragnum rqe.hdr.fragnum = offset rq.next_fragnum fragnum := by
  have hsame : ∀ number : BitVec 16, offset rq.next_fragnum number = offset rq.next_fragnum fragnum ↔ number = fragnum := by
    intro number
    unfold offset
    refine ⟨fun heq => ?_, fun heq => by rw [heq]⟩
    bv_omega
  refine ⟨fun hholds => ?_, ?_⟩
  · obtain hbefore | hqueued := hholds
    · exact absurd hbefore (not_serialLt hahead)
    · obtain ⟨rqe, hrqe, hnumber⟩ := List.mem_map.mp hqueued
      exact ⟨rqe, hrqe, (hsame _).mpr hnumber⟩
  · rintro ⟨rqe, hrqe, hoffset⟩
    exact .inr (List.mem_map.mpr ⟨rqe, hrqe, (hsame _).mp hoffset⟩)

theorem Content.toInt_eq (h : Content rq) {rqe : rpc_dg_recvq_elt_t} (hrqe : rqe ∈ out_of_order rq) :
    (rqe.hdr.fragnum - rq.next_fragnum).toInt = offset rq.next_fragnum rqe.hdr.fragnum := by
  obtain ⟨-, hnear⟩ := h.behind rqe hrqe
  rw [BitVec.toInt_eq_toNat_cond]
  unfold offset at hnear ⊢
  rw [if_pos (by omega)]

theorem names_sent (hcontent : Content rq) (hshape : Shaped xq sent unsent) (hmatch : Matches rq sent unsent)
    (hpkt : rpc__dg_call_xmit_fack order a rq memory = some pkt) : xmitq.NamesSent host pkt xq := by
  obtain ⟨selack, hselack, hfragnum, -, -, hmasks⟩ := fack_read host hpkt
  obtain ⟨masks, hmasks', hqueued, -, hreach⟩ := hcontent.masks
  obtain rfl : selack = masks := Option.some.inj (hselack.symm.trans hmasks')
  have hlen := selack_masks_length hselack
  intro huse xqe hxqe hfirst hnamed
  -- the fragment is the first of those that were not sent
  have hunsent : xqe ∈ unsent := by
    rw [hshape.first_unsent] at hfirst
    obtain ⟨first, hhead, haddr⟩ := Option.map_eq_some_iff.mp hfirst
    have hmem := List.mem_of_head? hhead
    rw [hshape.queue] at hxqe
    rwa [← List.inj_on_of_nodup_map hshape.addrs (List.mem_append_right sent hmem) hxqe haddr]
  obtain ⟨hahead, hbehind⟩ := hmatch.unsent_behind xqe hunsent
  rw [hmasks, hfragnum, show rq.next_fragnum - 1 + 1 = rq.next_fragnum by bv_omega] at hnamed
  obtain ⟨d, hd, hnumber, hset⟩ := mem_numbers_named hnamed
  have hfar : ∃ rqe ∈ out_of_order rq, d ≤ offset rq.next_fragnum rqe.hdr.fragnum := by
    by_cases hend : 32 * (selack.length - 1) ≤ d
    · obtain ⟨e, he, hbit⟩ := hset hend
      obtain ⟨rqe, hrqe, hoffset⟩ := hqueued e hbit
      exact ⟨rqe, hrqe, hoffset ▸ he⟩
    · obtain ⟨rqe, hrqe, hoffset⟩ := hreach (by omega)
      exact ⟨rqe, hrqe, by omega⟩
  obtain ⟨rqe, hrqe, hle⟩ := hfar
  have hlt := hbehind rqe hrqe
  obtain ⟨-, hnear⟩ := hcontent.behind rqe hrqe
  rw [hcontent.toInt_eq hrqe, hnumber, BitVec.toInt_eq_toNat_cond] at hlt
  split_ifs at hlt
  · bv_omega
  · bv_omega

theorem serialLe_next_iff {fragnum next_fragnum : BitVec 16} (hnear : (fragnum - next_fragnum).toInt < 2 ^ 15 - 1) :
    serialLe fragnum (next_fragnum - 1) ↔ serialLt fragnum next_fragnum := by
  unfold serialLe serialLt
  rw [BitVec.toInt_eq_toNat_cond] at hnear ⊢
  rw [BitVec.toInt_eq_toNat_cond]
  split_ifs at hnear ⊢ <;> bv_omega

theorem Matches.remaining_ahead (h : Matches rq sent unsent) :
    ∀ xqe ∈ xmitq.remaining sent (rq.next_fragnum - 1), 0 ≤ (xqe.fragnum - rq.next_fragnum).toInt := by
  have hsorted := (List.pairwise_append.mp h.sorted).1
  have hnear : ∀ xqe ∈ sent, (xqe.fragnum - rq.next_fragnum).toInt < 2 ^ 15 - 1 :=
    fun xqe hxqe => h.near xqe (List.mem_append_left unsent hxqe)
  clear h
  induction sent with
  | nil => simp [xmitq.remaining]
  | cons first rest ih =>
    obtain ⟨hfirst, hrest⟩ := List.pairwise_cons.mp hsorted
    rw [xmitq.remaining, List.dropWhile_cons]
    split_ifs with hle
    · exact ih hrest (fun xqe hxqe => hnear xqe (List.mem_cons_of_mem first hxqe))
    · rw [decide_eq_true_iff, serialLe_next_iff (hnear first List.mem_cons_self), serialLt, not_lt] at hle
      intro xqe hxqe
      obtain rfl | hmem := List.mem_cons.mp hxqe
      · exact hle
      · exact hle.trans (hfirst xqe hmem).le

theorem Matches.removed_behind (h : Matches rq sent unsent) :
    ∀ xqe ∈ xmitq.removed sent (rq.next_fragnum - 1), serialLt xqe.fragnum rq.next_fragnum := by
  intro xqe hxqe
  have hle := List.mem_takeWhile_imp (p := fun old : rpc_dg_xmitq_elt_t => decide (serialLe old.fragnum (rq.next_fragnum - 1))) hxqe
  rw [decide_eq_true_iff] at hle
  have hsent : xqe ∈ sent := (List.takeWhile_sublist _).subset hxqe
  exact (serialLe_next_iff (h.near xqe (List.mem_append_left unsent hsent))).mp hle

theorem Drops.congr {p : xmitq.Processed} {dropped dropped' : rpc_dg_xmitq_elt_t → Bool} (h : Drops xq p dropped)
    (hsame : ∀ xqe ∈ xq.queue, dropped' xqe = dropped xqe) : Drops xq p dropped' := by
  refine { freed := ?_, kept := ?_, rexmitq := fun addr haddr => ?_ }
  · rw [h.freed]
    exact List.filter_congr fun xqe hxqe => (hsame xqe hxqe).symm
  · rw [h.kept]
    have hkept : xq.queue.filter (fun xqe => !dropped xqe) = xq.queue.filter fun xqe => !dropped' xqe :=
      List.filter_congr fun xqe hxqe => by rw [hsame xqe hxqe]
    rw [hkept]
  · obtain ⟨xqe, hxqe, hat, hkept⟩ := h.rexmitq addr haddr
    exact ⟨xqe, hxqe, hat, (hsame xqe hxqe).trans hkept⟩

theorem filter_middle {α : Type} {p q : α → Bool} {front middle back : List α} (hfront : ∀ a ∈ front, p a = true)
    (hmiddle : ∀ a ∈ middle, p a = q a) (hback : ∀ a ∈ back, p a = false) :
    (front ++ middle ++ back).filter p = front ++ middle.filter q ∧
      ((front ++ middle ++ back).filter fun a => !p a) = (middle.filter fun a => !q a) ++ back := by
  have hnone : back.filter p = [] := List.filter_eq_nil_iff.mpr fun a ha => by rw [hback a ha]; decide
  have hnone' : (front.filter fun a => !p a) = [] := List.filter_eq_nil_iff.mpr fun a ha => by rw [hfront a ha]; decide
  have hall : (back.filter fun a => !p a) = back := List.filter_eq_self.mpr fun a ha => by rw [hback a ha]; rfl
  have hnot : (middle.filter fun a => !p a) = middle.filter fun a => !q a :=
    List.filter_congr fun a ha => by rw [hmiddle a ha]
  refine ⟨?_, ?_⟩
  · rw [List.filter_append, List.filter_append, List.filter_eq_self.mpr hfront, List.filter_congr hmiddle, hnone,
      List.append_nil]
  · rw [List.filter_append, List.filter_append, hnone', hnot, hall, List.nil_append]

theorem fack_drops (hcontent : Content rq) (hshape : Shaped xq sent unsent) (hmatch : Matches rq sent unsent)
    {selack : List (BitVec 32)} (hpkt : rpc__dg_call_xmit_fack order a rq memory = some pkt)
    (hselack : selack_masks rq a.mask_alloc = some selack)
    (hqueued : ∀ d, bit selack d = true → ∃ rqe ∈ out_of_order rq, offset rq.next_fragnum rqe.hdr.fragnum = d) :
    ∃ p, xmitq.rpc__dg_fack_common host around pkt xq = some p ∧
      Drops xq p fun xqe => decide (serialLt xqe.fragnum rq.next_fragnum) || bit selack (offset rq.next_fragnum xqe.fragnum) := by
  obtain ⟨selack', hselack', hfragnum, -, huse, hmasks⟩ := fack_read host hpkt
  obtain rfl : selack' = selack := Option.some.inj (hselack'.symm.trans hselack)
  have hlen := selack_masks_length hselack
  have hnext : pkt.fragnum + 1 = rq.next_fragnum := by rw [hfragnum]; bv_omega
  have hahead := hmatch.remaining_ahead
  have hbehind := hmatch.removed_behind
  rw [← hfragnum] at hahead hbehind
  have hremaining : (xmitq.remaining sent pkt.fragnum).Sublist sent := List.dropWhile_sublist _
  have hsorted : (xmitq.remaining sent pkt.fragnum).Pairwise fun x y =>
      offset (pkt.fragnum + 1) x.fragnum < offset (pkt.fragnum + 1) y.fragnum := by
    refine ((List.pairwise_append.mp hmatch.sorted).1.sublist hremaining).imp_of_mem fun {x y} hx hy hlt => ?_
    have hx' := hahead x hx
    have hy' := hahead y hy
    rw [hnext]
    unfold offset
    rw [BitVec.toInt_eq_toNat_cond] at hx' hlt
    rw [BitVec.toInt_eq_toNat_cond] at hy' hlt
    split_ifs at hx' hy' hlt <;> omega
  obtain ⟨p, sent', hfack, hp, hfreed, hkept⟩ := hshape.fack_frees
    (names_sent hcontent hshape hmatch hpkt) huse (by rw [hmasks]; omega)
    (fun j => by rw [hmasks]) hsorted
  rw [hnext] at hfreed hkept
  refine ⟨p, hfack, ?_⟩
  -- in front of the next fragment all are dropped, behind it those that are acknowledged, of those not sent none
  have hremoved : ∀ xqe ∈ xmitq.removed sent pkt.fragnum,
      (decide (serialLt xqe.fragnum rq.next_fragnum) || bit selack' (offset rq.next_fragnum xqe.fragnum)) = true := by
    intro xqe hxqe
    rw [decide_eq_true (hbehind xqe hxqe), Bool.true_or]
  have hacked : ∀ xqe ∈ xmitq.remaining sent pkt.fragnum,
      (decide (serialLt xqe.fragnum rq.next_fragnum) || bit selack' (offset rq.next_fragnum xqe.fragnum)) =
        bit selack' (offset rq.next_fragnum xqe.fragnum) := by
    intro xqe hxqe
    rw [decide_eq_false (not_serialLt (hahead xqe hxqe)), Bool.false_or]
  have hunsent : ∀ xqe ∈ unsent,
      (decide (serialLt xqe.fragnum rq.next_fragnum) || bit selack' (offset rq.next_fragnum xqe.fragnum)) = false := by
    intro xqe hxqe
    obtain ⟨hnot, hfar⟩ := hmatch.unsent_behind xqe hxqe
    rw [decide_eq_false (not_serialLt hnot), Bool.false_or]
    refine Bool.eq_false_of_not_eq_true fun hbit => ?_
    obtain ⟨rqe, hrqe, hoffset⟩ := hqueued _ hbit
    have hlt := hfar rqe hrqe
    rw [hcontent.toInt_eq hrqe, hoffset, BitVec.toInt_eq_toNat_cond] at hlt
    rw [BitVec.toInt_eq_toNat_cond] at hnot
    unfold offset at hlt
    split_ifs at hlt hnot <;> omega
  have hqueue : xq.queue = xmitq.removed sent pkt.fragnum ++ xmitq.remaining sent pkt.fragnum ++ unsent := by
    rw [xmitq.removed_append_remaining, hshape.queue]
  obtain ⟨htaken, hleft⟩ := filter_middle hremoved hacked hunsent
  refine { freed := ?_, kept := ?_, rexmitq := fun addr haddr => ?_ }
  · rw [hqueue, htaken, hfreed]
  · rw [hp.queue, hqueue, hleft, List.map_append, List.map_append, hkept]
  · have hmem := hp.rexmitq addr haddr
    rw [hkept] at hmem
    obtain ⟨xqe, hxqe, hat⟩ := List.mem_map.mp hmem
    obtain ⟨hin, hnot⟩ := List.mem_filter.mp hxqe
    refine ⟨xqe, ?_, hat, ?_⟩
    · rw [hshape.queue]
      exact List.mem_append_left unsent (hremaining.subset hin)
    · rw [hacked xqe hin]
      exact Bool.not_eq_true' _ |>.mp hnot

/-- The fack for any receive queue, on a sender of any byte order whose transmit queue matches it: the sender drops fragments that
the receiver holds only and retransmits others only; when the masks reach up to the highest fragment it drops all that are held. -/
theorem selective_ack_agrees (order host : ByteOrder) (a : Answering) (memory : ℕ → Byte) (around : xmitq.Around)
    (hcontent : Content rq) (hshape : Shaped xq sent unsent) (hmatch : Matches rq sent unsent) :
    ∃ pkt p, rpc__dg_call_xmit_fack order a rq memory = some pkt ∧ xmitq.rpc__dg_fack_common host around pkt xq = some p ∧
      (MaskFits rq a.mask_alloc → Drops xq p fun xqe => holds rq xqe.fragnum) ∧
      ∃ dropped, Drops xq p dropped ∧ ∀ xqe, dropped xqe = true → holds rq xqe.fragnum := by
  obtain ⟨selack, hselack, hqueued, hall, -⟩ := hcontent.masks
  obtain ⟨pkt, hpkt⟩ : ∃ pkt, rpc__dg_call_xmit_fack order a rq memory = some pkt := ⟨_, Option.map_eq_some_iff.mpr ⟨selack, hselack, rfl⟩⟩
  obtain ⟨p, hfack, hdrops⟩ := fack_drops hcontent hshape hmatch hpkt hselack hqueued
  refine ⟨pkt, p, hpkt, hfack, fun hfits => hdrops.congr fun xqe hxqe => ?_, _, hdrops, fun xqe hdropped => ?_⟩
  · by_cases hbefore : serialLt xqe.fragnum rq.next_fragnum
    · rw [decide_eq_true hbefore, Bool.true_or]
      exact decide_eq_true (.inl hbefore)
    · rw [decide_eq_false hbefore, Bool.false_or, Bool.eq_iff_iff, decide_eq_true_iff, holds_iff (not_lt.mp hbefore)]
      refine ⟨?_, hqueued _⟩
      rintro ⟨rqe, hrqe, hoffset⟩
      rw [← hoffset]
      exact hall hfits rqe hrqe
  · by_cases hbefore : serialLt xqe.fragnum rq.next_fragnum
    · exact .inl hbefore
    · rw [decide_eq_false hbefore, Bool.false_or] at hdropped
      exact (holds_iff (not_lt.mp hbefore)).mpr (hqueued _ hdropped)

def gapped : rpc_dg_recvq_t :=
  let fragment fragnum : rpc_dg_recvq_elt_t := ⟨⟨fragnum, fragnum, true, false, true⟩, false, 1024, 0⟩
  { dg.rpc__dg_recvq_init with head := [fragment 2, fragment 40], next_fragnum := 1, high_fragnum := 40, queue_len := 2 }

def around_gap : List rpc_dg_xmitq_elt_t × List rpc_dg_xmitq_elt_t :=
  let fragment addr fragnum was_sent : rpc_dg_xmitq_elt_t := ⟨addr, fragnum, fragnum, true, false, was_sent, was_sent⟩
  ([fragment 1 0 true, fragment 2 1 true, fragment 3 2 true, fragment 4 40 true], [fragment 5 41 false])

def gap_xmitq : rpc_dg_xmitq_t :=
  { xmitq.rpc__dg_xmitq_init with
    queue := around_gap.1 ++ around_gap.2
    first_unsent := some 5
    tail := some 5 }

def gap_told : Answering :=
  ⟨true, 4, 4, false, true, false, false, 65536, 4096, 64, none, true⟩

theorem selective_ack_agrees_gap :
    ∃ pkt p, rpc__dg_call_xmit_fack .big gap_told gapped (fun _ => 0) = some pkt ∧
      xmitq.rpc__dg_fack_common .little ⟨true, true, true⟩ pkt gap_xmitq = some p ∧
      (MaskFits gapped true → Drops gap_xmitq p fun xqe => holds gapped xqe.fragnum) ∧
      ∃ dropped, Drops gap_xmitq p dropped ∧ ∀ xqe, dropped xqe = true → holds gapped xqe.fragnum := by
  refine selective_ack_agrees .big .little gap_told (fun _ => 0) ⟨true, true, true⟩
    ⟨by decide, by decide, by decide, by decide, by decide⟩
    ⟨rfl, by decide, by decide, by decide, by decide, by decide, by decide⟩ ⟨by decide, by decide, by decide⟩

end Agreement

section Reached

end Reached

end dce.rpc.fack
