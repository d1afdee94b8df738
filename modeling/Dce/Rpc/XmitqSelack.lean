import Dce.Lib.BitSets
import Dce.Rpc.XmitqSafe

open lib

namespace dce.rpc.xmitq

/-- How far a fragment number is behind another one. -/
def offset (next_fragnum fragnum : BitVec 16) : ℕ := (fragnum - next_fragnum).toNat

/-- A scan that has sorted out the first of the fragments it has to look at: the acknowledged ones are freed, the others kept. -/
structure Sifted (next_fragnum : BitVec 16) (acked : ℕ → Bool) (freed whole unsent : List rpc_dg_xmitq_elt_t) (s : Scan)
    (done todo : List rpc_dg_xmitq_elt_t) : Prop where
  split : done ++ todo = whole
  curr : s.curr = todo ++ unsent
  freed : s.freed = freed ++ done.filter fun xqe => acked (offset next_fragnum xqe.fragnum)
  prev : s.prev.map (·.addr) = (done.filter fun xqe => !acked (offset next_fragnum xqe.fragnum)).map (·.addr)

section Scanning

variable {next_fragnum : BitVec 16} {acked : ℕ → Bool} {freed whole unsent done todo : List rpc_dg_xmitq_elt_t} {s : Scan}

variable (fack_fragnum : BitVec 16) {d : ℕ}

theorem offset_eq_iff {n fragnum : BitVec 16} (hd : d < 2 ^ 16) (hn : n = next_fragnum + BitVec.ofNat 16 d) :
    n = fragnum ↔ offset next_fragnum fragnum = d := by
  subst hn
  unfold offset
  refine ⟨?_, fun h => ?_⟩
  · rintro rfl
    bv_omega
  · bv_omega

theorem Sifted.scan_bit {n : BitVec 16} (hd : d < 2 ^ 16)
    (hn : n = next_fragnum + BitVec.ofNat 16 d) (hfirst : ∀ first, unsent.head? = some first → first.fragnum ≠ n)
    (hsorted : whole.Pairwise fun a b => offset next_fragnum a.fragnum < offset next_fragnum b.fragnum)
    (h : Sifted next_fragnum acked freed whole unsent s done todo)
    (htodo : ∀ xqe ∈ todo, d ≤ offset next_fragnum xqe.fragnum) :
    ∃ done' todo', Sifted next_fragnum acked freed whole unsent (xmitq.scan_bit fack_fragnum n (acked d) s) done' todo' ∧
      ∀ xqe ∈ todo', d + 1 ≤ offset next_fragnum xqe.fragnum := by
  cases todo with
  | nil =>
    refine ⟨done, [], ?_, by simp⟩
    unfold xmitq.scan_bit
    rw [h.curr]
    cases unsent with
    | nil => exact h
    | cons first rest =>
      dsimp only [List.nil_append]
      rw [if_pos (hfirst first rfl).symm]
      exact h
  | cons xqe todo =>
    have hbehind : ∀ old ∈ todo, offset next_fragnum xqe.fragnum < offset next_fragnum old.fragnum := by
      rw [← h.split, List.pairwise_append] at hsorted
      exact (List.pairwise_cons.mp hsorted.2.1).1
    have hhere := htodo xqe List.mem_cons_self
    by_cases hnumber : n = xqe.fragnum
    · have hoffset := (offset_eq_iff hd hn).mp hnumber
      have hafter : ∀ old ∈ todo, d + 1 ≤ offset next_fragnum old.fragnum := fun old hold => by
        have := hbehind old hold
        omega
      refine ⟨done ++ [xqe], todo, ?_, hafter⟩
      have hsplit : (done ++ [xqe]) ++ todo = whole := by rw [List.append_assoc]; exact h.split
      have hkeep : acked d = false → ∀ (s' : Scan) (kept : rpc_dg_xmitq_elt_t), kept.addr = xqe.addr →
          s'.curr = todo ++ unsent → s'.freed = s.freed → s'.prev = s.prev ++ [kept] →
          Sifted next_fragnum acked freed whole unsent s' (done ++ [xqe]) todo := by
        intro hnot s' kept haddr hcurr hfreed hprev
        refine { split := hsplit, curr := hcurr, freed := ?_, prev := ?_ }
        · rw [hfreed, h.freed, List.filter_append]
          simp [hoffset, hnot]
        · rw [hprev, List.map_append, h.prev, List.filter_append]
          simp [hoffset, hnot, haddr]
      unfold xmitq.scan_bit
      rw [h.curr]
      dsimp only [List.cons_append]
      rw [if_neg (not_not.mpr hnumber)]
      cases hacked : acked d with
      | true =>
        rw [if_pos rfl]
        refine { split := hsplit, curr := rfl, freed := ?_, prev := ?_ }
        · rw [List.filter_append, ← List.append_assoc, ← h.freed]
          simp [Scan.ack, hoffset, hacked]
        · rw [List.filter_append, List.map_append, ← h.prev]
          simp [Scan.ack, hoffset, hacked]
      | false =>
        rw [if_neg (by decide)]
        split_ifs
        · exact hkeep hacked _ (leave_window xqe) rfl rfl rfl rfl
        · exact hkeep hacked _ xqe rfl rfl rfl rfl
    · refine ⟨done, xqe :: todo, ?_, fun old hold => ?_⟩
      · unfold xmitq.scan_bit
        rw [h.curr]
        dsimp only [List.cons_append]
        rw [if_pos hnumber]
        exact h
      · have hne : offset next_fragnum xqe.fragnum ≠ d := fun heq => hnumber ((offset_eq_iff hd hn).mpr heq)
        obtain rfl | hrest := List.mem_cons.mp hold
        · omega
        · have := hbehind old hrest
          omega

theorem Sifted.scan_mask (is_last : Bool) (n : ℕ) {mask : BitVec 32}
    (hroom : d + n ≤ 2 ^ 16) (hbits : ∀ j < n, acked (d + j) = mask.getLsbD j)
    (hlast : is_last = true → ∀ j, n ≤ j → acked (d + j) = false)
    (hfirst : ∀ first, unsent.head? = some first →
      first.fragnum ∉ mask_numbers is_last n mask (next_fragnum + BitVec.ofNat 16 d))
    (hsorted : whole.Pairwise fun a b => offset next_fragnum a.fragnum < offset next_fragnum b.fragnum)
    (h : Sifted next_fragnum acked freed whole unsent s done todo)
    (htodo : ∀ xqe ∈ todo, d ≤ offset next_fragnum xqe.fragnum) :
    ∃ done' todo', Sifted next_fragnum acked freed whole unsent
        (xmitq.scan_mask fack_fragnum is_last n mask (next_fragnum + BitVec.ofNat 16 d) s) done' todo' ∧
      (is_last = false → ∀ xqe ∈ todo', d + n ≤ offset next_fragnum xqe.fragnum) ∧
      (is_last = true → ∀ xqe ∈ todo', acked (offset next_fragnum xqe.fragnum) = false) := by
  induction n generalizing s done todo mask d with
  | zero =>
    refine ⟨done, todo, h, fun _ => htodo, fun his xqe hxqe => ?_⟩
    have hle := htodo xqe hxqe
    have hnot := hlast his (offset next_fragnum xqe.fragnum - d) (Nat.zero_le _)
    rwa [Nat.add_sub_cancel' hle] at hnot
  | succ n ih =>
    rw [xmitq.scan_mask]
    by_cases hmask : mask = 0 ∧ is_last = true
    · rw [if_pos (.inl hmask)]
      refine ⟨done, todo, h, fun his => ?_, fun his xqe hxqe => ?_⟩
      · exact absurd (his.symm.trans hmask.2) (by decide)
      · have hle := htodo xqe hxqe
        by_cases hin : offset next_fragnum xqe.fragnum - d < n + 1
        · have hbit := hbits _ hin
          rw [Nat.add_sub_cancel' hle, hmask.1] at hbit
          exact hbit.trans BitVec.getLsbD_zero
        · have hnot := hlast his _ (Nat.not_lt.mp hin)
          rwa [Nat.add_sub_cancel' hle] at hnot
    · by_cases hempty : s.curr.isEmpty
      · rw [if_pos (.inr hempty)]
        have hnone : todo = [] := by
          have hcurr := List.isEmpty_iff.mp hempty
          rw [h.curr] at hcurr
          exact (List.append_eq_nil_iff.mp hcurr).1
        subst hnone
        exact ⟨done, [], h, by simp, by simp⟩
      · rw [if_neg (not_or.mpr ⟨hmask, hempty⟩)]
        rw [mask_numbers, if_neg hmask] at hfirst
        have hzero : acked d = mask.getLsbD 0 := hbits 0 (Nat.succ_pos n)
        obtain ⟨done', todo', h', htodo'⟩ := h.scan_bit (n := next_fragnum + BitVec.ofNat 16 d) (d := d) fack_fragnum
          (by omega) rfl (fun first hhead heq => hfirst first hhead (heq ▸ List.mem_cons_self)) hsorted htodo
        have hnext : next_fragnum + BitVec.ofNat 16 d + 1 = next_fragnum + BitVec.ofNat 16 (d + 1) := by bv_omega
        rw [← hzero, hnext]
        obtain ⟨done'', todo'', h'', hmore, hend⟩ := ih (d := d + 1) (by omega)
          (fun j hj => by
            have hbit := hbits (1 + j) (by omega)
            rw [BitVec.getLsbD_ushiftRight, ← hbit, Nat.add_assoc])
          (fun his j hj => by
            have hnot := hlast his (1 + j) (by omega)
            rwa [← Nat.add_assoc] at hnot)
          (fun first hhead hmem => hfirst first hhead (by rw [hnext]; exact List.mem_cons_of_mem _ hmem)) h' htodo'
        refine ⟨done'', todo'', h'', fun his xqe hxqe => ?_, hend⟩
        have := hmore his xqe hxqe
        omega

theorem Sifted.scan_masks (masks : List (BitVec 32))
    (hroom : d + 32 * masks.length ≤ 2 ^ 16) (hbits : ∀ j, acked (d + j) = bit masks j)
    (hfirst : ∀ first, unsent.head? = some first →
      first.fragnum ∉ numbers_named masks (next_fragnum + BitVec.ofNat 16 d))
    (hsorted : whole.Pairwise fun a b => offset next_fragnum a.fragnum < offset next_fragnum b.fragnum)
    (h : Sifted next_fragnum acked freed whole unsent s done todo)
    (htodo : ∀ xqe ∈ todo, d ≤ offset next_fragnum xqe.fragnum) :
    ∃ done' todo', Sifted next_fragnum acked freed whole unsent
        (xmitq.scan_masks fack_fragnum masks (next_fragnum + BitVec.ofNat 16 d) s) done' todo' ∧
      ∀ xqe ∈ todo', acked (offset next_fragnum xqe.fragnum) = false := by
  induction masks generalizing s done todo d with
  | nil =>
    refine ⟨done, todo, h, fun xqe hxqe => ?_⟩
    have hle := htodo xqe hxqe
    have hnot := hbits (offset next_fragnum xqe.fragnum - d)
    rw [Nat.add_sub_cancel' hle] at hnot
    exact hnot.trans (bit_of_length_le (Nat.zero_le _))
  | cons mask rest ih =>
    rw [xmitq.scan_masks]
    rw [numbers_named] at hfirst
    rw [List.length_cons] at hroom
    have hcounted : Sifted next_fragnum acked freed whole unsent { s with words := s.words + 1 } done todo := { h with }
    obtain ⟨done', todo', h', hmore, hend⟩ := hcounted.scan_mask fack_fragnum rest.isEmpty 32 (d := d)
      (by omega) (fun j hj => by rw [hbits, bit_cons_of_lt mask rest hj])
      (fun his j hj => by
        rw [hbits]
        refine bit_of_length_le ?_
        rw [List.isEmpty_iff.mp his]
        change 1 ≤ j / 32
        omega)
      (fun first hhead hmem => hfirst first hhead (List.mem_append_left _ hmem)) hsorted htodo
    split_ifs with hempty
    · refine ⟨done', todo', h', ?_⟩
      have hcurr := List.isEmpty_iff.mp hempty
      rw [h'.curr] at hcurr
      rw [(List.append_eq_nil_iff.mp hcurr).1]
      simp
    · cases hrest : rest.isEmpty with
      | true =>
        rw [hrest] at h' hend
        rw [List.isEmpty_iff.mp hrest]
        exact ⟨done', todo', h', hend rfl⟩
      | false =>
        rw [hrest] at h' hmore
        have hnext : next_fragnum + BitVec.ofNat 16 d + 32 = next_fragnum + BitVec.ofNat 16 (d + 32) := by bv_omega
        rw [hnext]
        refine ih (d := d + 32) (by omega) (fun j => ?_) (fun first hhead hmem => ?_) h' (hmore rfl)
        · rw [Nat.add_assoc, hbits, bit_cons_add mask rest j (by decide)]
        · exact hfirst first hhead (List.mem_append_right _ (by rw [hnext]; exact hmem))

theorem Sifted.scan_rest {first_unsent : Option Addr} {s' : Scan} (h : Sifted next_fragnum acked freed whole unsent s done todo)
    (htodo : ∀ xqe ∈ todo, acked (offset next_fragnum xqe.fragnum) = false)
    (hnot : ∀ xqe ∈ todo, first_unsent ≠ some xqe.addr) (hfirst : first_unsent = unsent.head?.map (·.addr))
    (hrest : xmitq.scan_rest first_unsent s.curr s = some s') :
    Sifted next_fragnum acked freed whole unsent s' whole [] := by
  rw [h.curr] at hrest
  induction todo generalizing s done with
  | nil =>
    have hdone : done = whole := by rw [← h.split, List.append_nil]
    rw [hdone] at h
    cases unsent with
    | nil =>
      obtain rfl : { s with curr := [] } = s' := Option.some.inj ((if_pos hfirst).symm.trans hrest)
      exact { split := List.append_nil _, curr := rfl, freed := h.freed, prev := h.prev }
    | cons first rest =>
      obtain rfl : { s with curr := first :: rest } = s' := Option.some.inj ((if_pos hfirst).symm.trans hrest)
      exact { split := List.append_nil _, curr := rfl, freed := h.freed, prev := h.prev }
  | cons xqe todo ih =>
    have hout := htodo xqe List.mem_cons_self
    have hkeep : ∀ (kept : rpc_dg_xmitq_elt_t) (s' : Scan), kept.addr = xqe.addr → s'.curr = todo ++ unsent →
        s'.freed = s.freed → s'.prev = s.prev ++ [kept] →
        Sifted next_fragnum acked freed whole unsent s' (done ++ [xqe]) todo := by
      intro kept s' haddr hcurr hfreed hprev
      refine { split := by rw [List.append_assoc]; exact h.split, curr := hcurr, freed := ?_, prev := ?_ }
      · rw [hfreed, h.freed, List.filter_append]
        simp [hout]
      · rw [hprev, List.map_append, h.prev, List.filter_append]
        simp [hout, haddr]
    rw [List.cons_append, xmitq.scan_rest, if_neg (hnot xqe List.mem_cons_self)] at hrest
    have htodo' : ∀ old ∈ todo, acked (offset next_fragnum old.fragnum) = false :=
      fun old hold => htodo old (List.mem_cons_of_mem xqe hold)
    have hnot' : ∀ old ∈ todo, first_unsent ≠ some old.addr := fun old hold => hnot old (List.mem_cons_of_mem xqe hold)
    split_ifs at hrest
    · have hkept := hkeep (leave_window xqe) (Scan.rexmit { s with xq := uncount true s.xq xqe } xqe (todo ++ unsent))
        rfl rfl rfl rfl
      exact ih hkept htodo' hnot' hrest
    · have hkept := hkeep xqe (s.pass xqe (todo ++ unsent)) rfl rfl rfl rfl
      exact ih hkept htodo' hnot' hrest

end Scanning

section Fack

variable {order : ByteOrder} {around : Around} {pkt : rpc_dg_fackpkt_t} {xq base : rpc_dg_xmitq_t}
  {sent unsent : List rpc_dg_xmitq_elt_t} {acked : ℕ → Bool} {p : Processed}

theorem Scanned.selective_ack_frees {s : Scan} (hscan : Scanned s sent unsent base) (hprev : s.prev = [])
    (hroom : 32 * (masks order pkt).length ≤ 2 ^ 16) (hbits : ∀ j, acked j = bit (masks order pkt) j)
    (hnumbers : ∀ first, unsent.head? = some first → first.fragnum ∉ numbers_named (masks order pkt) (pkt.fragnum + 1))
    (hsorted : sent.Pairwise fun a b => offset (pkt.fragnum + 1) a.fragnum < offset (pkt.fragnum + 1) b.fragnum) :
    ∃ s', do_selective_ack order pkt s = some s' ∧
      s'.freed = s.freed ++ sent.filter (fun xqe => acked (offset (pkt.fragnum + 1) xqe.fragnum)) ∧
      s'.prev.map (·.addr) = (sent.filter fun xqe => !acked (offset (pkt.fragnum + 1) xqe.fragnum)).map (·.addr) ∧
      s'.curr = unsent := by
  have hstart : Sifted (pkt.fragnum + 1) acked s.freed sent unsent s [] sent :=
    { split := rfl, curr := hscan.curr, freed := by simp, prev := by simp [hprev] }
  have hzero : pkt.fragnum + 1 = pkt.fragnum + 1 + BitVec.ofNat 16 0 := (BitVec.add_zero _).symm
  obtain ⟨done, todo, hmasks, hnot⟩ := hstart.scan_masks pkt.fragnum (masks order pkt) (d := 0) (by omega)
    (fun j => by rw [Nat.zero_add, hbits]) (by rwa [← hzero]) hsorted (fun _ _ => Nat.zero_le _)
  rw [← hzero] at hmasks
  obtain ⟨todo', hscan'⟩ := hscan.scan_masks pkt.fragnum (masks order pkt) (pkt.fragnum + 1) hnumbers
  obtain rfl : todo = todo' := List.append_cancel_right (hmasks.curr.symm.trans hscan'.curr)
  obtain ⟨s', hrest, -, -⟩ := hscan'.scan_rest
  have hsifted := hmasks.scan_rest hnot (fun xqe hmem => hscan'.first_unsent_ne hmem) hscan'.first_unsent hrest
  exact ⟨s', hrest, hsifted.freed, hsifted.prev, hsifted.curr⟩

theorem set_blast_frame {q : Processed} (hset : set_blast p = some q) : q.freed = p.freed ∧ q.xq.queue = p.xq.queue := by
  obtain ⟨ready, -, rfl⟩ := Option.map_eq_some_iff.mp hset
  exact ⟨rfl, (adjust_blast_same p.rexmit_cnt).queue⟩

theorem Shaped.fack_frees (hshape : Shaped xq sent unsent) (hnames : NamesSent order pkt xq)
    (huse : using_selacks pkt = true) (hroom : 32 * (masks order pkt).length ≤ 2 ^ 16)
    (hbits : ∀ j, acked j = bit (masks order pkt) j)
    (hsorted : (remaining sent pkt.fragnum).Pairwise fun a b =>
      offset (pkt.fragnum + 1) a.fragnum < offset (pkt.fragnum + 1) b.fragnum) :
    ∃ p sent', rpc__dg_fack_common order around pkt xq = some p ∧ Shaped p.xq sent' unsent ∧
      p.freed = removed sent pkt.fragnum ++
        (remaining sent pkt.fragnum).filter (fun xqe => acked (offset (pkt.fragnum + 1) xqe.fragnum)) ∧
      sent'.map (·.addr) =
        ((remaining sent pkt.fragnum).filter fun xqe => !acked (offset (pkt.fragnum + 1) xqe.fragnum)).map (·.addr) := by
  obtain ⟨p, sent', hfack, hp, -⟩ := hshape.fack_common hnames
  obtain ⟨p₀, hremove, hremoved, hrexmitq, hfreed⟩ := hshape.fack_removed
  obtain ⟨hlong, hvers⟩ := uses_selacks huse
  have hpos : pkt.len > 0 := by
    have hlt := (long_fack hlong).2
    exact Nat.lt_of_lt_of_le (by decide) hlt
  have hnumbers : ∀ first, unsent.head? = some first →
      first.fragnum ∉ numbers_named (masks order pkt) (pkt.fragnum + 1) := by
    intro first hfirst
    refine hnames huse first ?_ ?_
    · rw [hshape.queue]
      exact List.mem_append_right _ (List.mem_of_head? hfirst)
    · rw [hshape.first_unsent, hfirst]
      rfl
  -- the state in which the selective acknowledgements are processed
  let p₁ : Processed :=
    { p₀ with
      xq := { p₀.xq with window_size := window_size order pkt }
      reads := p₀.reads ++ [⟨0, 1⟩] ++ [⟨OFF_WINDOW_SIZE, 2⟩, ⟨OFF_MAX_TSDU, 4⟩, ⟨OFF_MAX_FRAG_SIZE, 4⟩] }
  have hbody : do_fack_body order around pkt p₀ =
      (fack_selacks order pkt p₁).map fun q => fack_sizes around q (fack_frag_size order pkt p₁.xq) := by
    unfold do_fack_body
    dsimp only
    rw [if_neg (not_not.mpr hvers)]
  have hcommon : rpc__dg_fack_common order around pkt xq = (do_fack_body order around pkt p₀).bind set_blast := by
    rw [rpc__dg_fack_common, hremove, Option.bind_some, if_pos hpos]
  have hresult : ∀ q, fack_selacks order pkt p₁ = some q → p.freed = q.freed ∧ p.xq.queue = q.xq.queue := by
    intro q hq
    rw [hcommon, hbody, hq, Option.map_some, Option.bind_some] at hfack
    obtain ⟨hsame, hqueue⟩ := set_blast_frame hfack
    exact ⟨hsame, hqueue⟩
  refine ⟨p, sent', hfack, hp.shape, ?_⟩
  by_cases hempty : p₀.xq.queue = []
  · obtain ⟨hnone, hnone'⟩ := List.append_eq_nil_iff.mp (hremoved.shape.queue.symm.trans hempty)
    obtain ⟨hsame, hqueue⟩ := hresult p₁ (if_neg fun h => h.2 hempty)
    rw [hp.shape.queue] at hqueue
    have hleft : sent' = [] := (List.append_eq_nil_iff.mp (hqueue.trans hempty)).1
    rw [hsame, hnone, hleft]
    exact ⟨hfreed.trans (List.append_nil _).symm, rfl⟩
  · have hscan : Scanned (start_scan p₁) (remaining sent pkt.fragnum) unsent xq :=
      { hremoved.start_scan hrexmitq with
        counts := fun hbase => ((hremoved.start_scan hrexmitq).counts hbase).congr rfl rfl rfl }
    obtain ⟨s', hselack, hfreed', hprev, hcurr⟩ := hscan.selective_ack_frees rfl hroom hbits hnumbers hsorted
    obtain ⟨hsame, hqueue⟩ := hresult (end_scan p₁ s') (by
      rw [fack_selacks, if_pos ⟨hlong, hempty⟩, hselack]
      rfl)
    have hqueue' : sent' ++ unsent = s'.prev ++ unsent := by
      rw [← hp.shape.queue, hqueue, ← hcurr]
      rfl
    refine ⟨?_, ?_⟩
    · rw [hsame, ← hfreed]
      exact hfreed'
    · rw [List.append_cancel_right hqueue']
      exact hprev

end Fack

end dce.rpc.xmitq
