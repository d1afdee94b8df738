import Dce.Rpc.XmitqShape

open lib

namespace dce.rpc.xmitq

section Names

/-- The numbers that the loop over the bits of a mask looks for. -/
def mask_numbers (is_last : Bool) : ℕ → BitVec 32 → BitVec 16 → List (BitVec 16)
  | 0, _, _ => []
  | n + 1, mask, selack_fragnum =>
    if mask = 0 ∧ is_last then [] else selack_fragnum :: mask_numbers is_last n (mask >>> 1) (selack_fragnum + 1)

/-- The fragments that masks name, acknowledged or not: all of every mask, of the last one those up to its highest bit. -/
def numbers_named : List (BitVec 32) → BitVec 16 → List (BitVec 16)
  | [], _ => []
  | mask :: rest, selack_fragnum =>
    mask_numbers rest.isEmpty 32 mask selack_fragnum ++ numbers_named rest (selack_fragnum + 32)

/-- What is left of fragment numbers once those that lead them were found one after the other. -/
def walk : List (BitVec 16) → List (BitVec 16) → List (BitVec 16)
  | left, [] => left
  | left, number :: numbers => walk (if left.head? = some number then left.tail else left) numbers

/-- The number of masks that are looked at before all fragments were found. -/
def masks_seen : List (BitVec 32) → BitVec 16 → List (BitVec 16) → ℕ
  | [], _, _ => 0
  | mask :: rest, selack_fragnum, left =>
    let left := walk left (mask_numbers rest.isEmpty 32 mask selack_fragnum)
    if left = [] then 1 else masks_seen rest (selack_fragnum + 32) left + 1

/-- The fragments that are behind those acknowledged up to a number. -/
def not_removed (xq : rpc_dg_xmitq_t) (fragnum : BitVec 16) : List rpc_dg_xmitq_elt_t :=
  xq.queue.dropWhile fun xqe => some xqe.addr ≠ xq.first_unsent ∧ serialLe xqe.fragnum fragnum

variable (order : ByteOrder) (pkt : rpc_dg_fackpkt_t) (xq : rpc_dg_xmitq_t)

/-- The selective acknowledgements of a fack do not name the first fragment that was not sent. -/
def NamesSent : Prop :=
  using_selacks pkt = true →
    ∀ xqe ∈ xq.queue, xq.first_unsent = some xqe.addr → xqe.fragnum ∉ numbers_named (masks order pkt) (pkt.fragnum + 1)

/-- The length of a fack covers what is read of its body: the sizes, the serial number, and the masks that are looked at as long
as there are fragments to find. -/
def CoversBody : Prop :=
  pkt.len ≠ 0 → vers pkt = RPC_C_DG_FACKPKT_BODY_VERS →
    12 ≤ pkt.len.toNat ∧
      (12 < pkt.len.toNat →
        14 ≤ pkt.len.toNat ∧
          (not_removed xq pkt.fragnum ≠ [] →
            OFF_SELACK + 4 * masks_seen (masks order pkt) (pkt.fragnum + 1)
              ((not_removed xq pkt.fragnum).map (·.fragnum)) ≤ pkt.len.toNat))

instance : Decidable (NamesSent order pkt xq) := by
  unfold NamesSent
  infer_instance

instance : Decidable (CoversBody order pkt xq) := by
  unfold CoversBody
  infer_instance

end Names

section Removal

variable {selacks : Bool} {fragnum : BitVec 16} {sent unsent : List rpc_dg_xmitq_elt_t}

theorem remove_loop_spec (s : Removal) (hfirst : s.xq.first_unsent = unsent.head?.map (·.addr))
    (hnot : ∀ xqe ∈ sent, xqe.addr ∉ unsent.map (·.addr)) :
    ∃ s', remove_loop selacks fragnum (sent ++ unsent) s =
        some ((sent.dropWhile fun xqe => decide (serialLe xqe.fragnum fragnum)) ++ unsent, s') ∧
      s'.freed = s.freed ++ sent.takeWhile (fun xqe => decide (serialLe xqe.fragnum fragnum)) ∧
      s'.xq = (sent.takeWhile fun xqe => decide (serialLe xqe.fragnum fragnum)).foldl (uncount false) s.xq := by
  induction sent generalizing s with
  | nil =>
    refine ⟨s, ?_, by simp, rfl⟩
    cases unsent with
    | nil => exact if_pos hfirst
    | cons xqe rest => exact if_pos hfirst
  | cons xqe sent ih =>
    have hne : s.xq.first_unsent ≠ some xqe.addr := by
      rw [hfirst]
      intro heq
      obtain ⟨first, hhead, haddr⟩ := Option.map_eq_some_iff.mp heq
      refine hnot xqe List.mem_cons_self ?_
      rw [← haddr]
      exact List.mem_map_of_mem (List.mem_of_head? hhead)
    by_cases hle : serialLe xqe.fragnum fragnum
    · obtain ⟨s', hloop, hfreed, hxq⟩ := ih (s.remove selacks xqe)
        (by simpa only [Removal.remove, uncount_first_unsent] using hfirst)
        (fun old hold => hnot old (List.mem_cons_of_mem xqe hold))
      refine ⟨s', ?_, ?_, ?_⟩
      · rw [List.cons_append, remove_loop, if_neg hne, if_pos hle, hloop]
        simp [hle]
      · simp [hfreed, Removal.remove, hle]
      · simp [hxq, Removal.remove, hle]
    · refine ⟨s, ?_, by simp [hle], by simp [hle]⟩
      rw [List.cons_append, remove_loop, if_neg hne, if_neg hle]
      simp [hle]

end Removal

section Scanning

/-- A scan that has fragments that were sent in front of it, then those that were not. Each fragment that was in the queue `base`
before is still there or was freed, and counts that were exact are. -/
structure Scanned (s : Scan) (todo unsent : List rpc_dg_xmitq_elt_t) (base : rpc_dg_xmitq_t) : Prop where
  curr : s.curr = todo ++ unsent
  addrs : ((s.prev ++ (todo ++ unsent)).map (·.addr)).Nodup
  prev_sent : ∀ xqe ∈ s.prev, xqe.was_sent = true
  todo_sent : ∀ xqe ∈ todo, xqe.was_sent = true
  freed_sent : ∀ xqe ∈ s.freed, xqe.was_sent = true
  unsent_not : ∀ xqe ∈ unsent, xqe.was_sent = false
  first_unsent : s.xq.first_unsent = unsent.head?.map (·.addr)
  tail : s.xq.tail = (s.prev ++ (todo ++ unsent)).getLast?.map (·.addr)
  rexmitq : ∀ addr ∈ s.rexmitq, addr ∈ s.prev.map (·.addr)
  rexmit_nodup : s.rexmitq.Nodup
  rexmit_cnt : s.rexmit_cnt = s.rexmitq.length
  rexmit_out : ∀ xqe ∈ s.prev, xqe.addr ∈ s.rexmitq → xqe.in_cwindow = false
  kept : ((s.prev ++ (todo ++ unsent)).map (·.addr) ++ s.freed.map (·.addr)).Perm (base.queue.map (·.addr))
  numbers : s.xq.next_fragnum = base.next_fragnum ∧ s.xq.frag = base.frag
  counts : Tallied base base.queue → Tallied s.xq (s.prev ++ (todo ++ unsent))

variable {s : Scan} {xqe : rpc_dg_xmitq_elt_t} {todo unsent : List rpc_dg_xmitq_elt_t} {base : rpc_dg_xmitq_t}

variable (xqe) in
theorem tail_without {prev rest : List rpc_dg_xmitq_elt_t} (hnodup : ((prev ++ xqe :: rest).map (·.addr)).Nodup) :
    (if ((prev ++ xqe :: rest).getLast?.map (·.addr)) = some xqe.addr then prev.getLast?.map (·.addr)
      else (prev ++ xqe :: rest).getLast?.map (·.addr)) = (prev ++ rest).getLast?.map (·.addr) := by
  cases rest using List.reverseRecOn with
  | nil => simp
  | append_singleton rest last =>
    have hlast : (prev ++ xqe :: (rest ++ [last])).getLast?.map (·.addr) = some last.addr := by
      rw [← List.cons_append, ← List.append_assoc, List.getLast?_concat]
      rfl
    have hne : last.addr ≠ xqe.addr := by
      intro heq
      rw [List.map_append, List.nodup_append, List.map_cons, List.nodup_cons] at hnodup
      refine hnodup.2.1.1 ?_
      rw [← heq]
      simp
    rw [hlast, if_neg (by simpa using hne), ← List.append_assoc, List.getLast?_concat]
    rfl

section

variable (hscan : Scanned s (xqe :: todo) unsent base)

include hscan

theorem Scanned.ack : Scanned (s.ack xqe (todo ++ unsent)) todo unsent base where
  curr := rfl
  addrs := by
    have hsub : (s.prev ++ (todo ++ unsent)).Sublist (s.prev ++ (xqe :: todo ++ unsent)) :=
      (List.sublist_cons_self xqe (todo ++ unsent)).append_left s.prev
    exact hscan.addrs.sublist (hsub.map _)
  prev_sent := hscan.prev_sent
  todo_sent := fun old hold => hscan.todo_sent old (List.mem_cons_of_mem xqe hold)
  freed_sent := by
    intro old hold
    obtain hbefore | hnew := List.mem_append.mp hold
    · exact hscan.freed_sent old hbefore
    · obtain rfl : old = xqe := by simpa using hnew
      exact hscan.todo_sent old List.mem_cons_self
  unsent_not := hscan.unsent_not
  first_unsent := (uncount_first_unsent true xqe).trans hscan.first_unsent
  tail := by
    have htail := hscan.tail
    have hwithout := tail_without xqe hscan.addrs
    rw [List.cons_append] at htail
    dsimp only [Scan.ack]
    rw [htail]
    exact hwithout
  rexmitq := hscan.rexmitq
  rexmit_nodup := hscan.rexmit_nodup
  rexmit_cnt := hscan.rexmit_cnt
  rexmit_out := hscan.rexmit_out
  kept := by
    have hsame : ((s.prev ++ (todo ++ unsent)).map (·.addr) ++ (s.freed ++ [xqe]).map (·.addr)).Perm
        ((s.prev ++ (xqe :: todo ++ unsent)).map (·.addr) ++ s.freed.map (·.addr)) := by
      refine List.perm_iff_count.mpr fun addr => ?_
      simp only [List.map_append, List.map_cons, List.map_nil, List.cons_append, List.count_append, List.count_cons,
        List.count_nil]
      omega
    exact hsame.trans hscan.kept
  numbers := ⟨(uncount_next_fragnum true xqe).trans hscan.numbers.1, (uncount_frag true xqe).trans hscan.numbers.2⟩
  counts := fun hbase => (Tallied.uncount _ true (hscan.counts hbase)).congr rfl rfl rfl

theorem Scanned.notMem_prev : xqe.addr ∉ s.prev.map (·.addr) := by
  have hnodup := hscan.addrs
  rw [List.map_append, List.nodup_append] at hnodup
  intro hmem
  exact hnodup.2.2 xqe.addr hmem xqe.addr (by simp) rfl

theorem Scanned.keep {s' : Scan} {kept : rpc_dg_xmitq_elt_t}
    (hkept : kept.addr = xqe.addr ∧ kept.was_sent = xqe.was_sent) (hprev : s'.prev = s.prev ++ [kept])
    (hcurr : s'.curr = todo ++ unsent) (hfreed : s'.freed = s.freed) (hfirst : s'.xq.first_unsent = s.xq.first_unsent)
    (htail : s'.xq.tail = s.xq.tail) (hnumbers : s'.xq.next_fragnum = s.xq.next_fragnum ∧ s'.xq.frag = s.xq.frag)
    (hcounts : Tallied s.xq (s.prev ++ xqe :: (todo ++ unsent)) → Tallied s'.xq (s.prev ++ kept :: (todo ++ unsent)))
    (hrexmit : s'.rexmitq = s.rexmitq ∧ s'.rexmit_cnt = s.rexmit_cnt ∨
      s'.rexmitq = s.rexmitq ++ [xqe.addr] ∧ s'.rexmit_cnt = s.rexmit_cnt + 1 ∧ kept.in_cwindow = false) :
    Scanned s' todo unsent base := by
  have hsame : (s'.prev ++ (todo ++ unsent)).map (·.addr) = (s.prev ++ (xqe :: todo ++ unsent)).map (·.addr) := by
    simp [hprev, hkept.1]
  have hnot := hscan.notMem_prev
  have hold : ∀ addr ∈ s.rexmitq, addr ≠ xqe.addr := fun addr haddr heq => hnot (heq ▸ hscan.rexmitq addr haddr)
  refine
    { curr := hcurr
      addrs := by rw [hsame]; exact hscan.addrs
      prev_sent := ?_
      todo_sent := fun old hold => hscan.todo_sent old (List.mem_cons_of_mem xqe hold)
      freed_sent := by rw [hfreed]; exact hscan.freed_sent
      unsent_not := hscan.unsent_not
      first_unsent := hfirst.trans hscan.first_unsent
      tail := htail.trans (hscan.tail.trans (getLast?_addr_congr hsame).symm)
      rexmitq := ?_
      rexmit_nodup := ?_
      rexmit_cnt := ?_
      rexmit_out := ?_
      kept := by rw [hsame, hfreed]; exact hscan.kept
      numbers := ⟨hnumbers.1.trans hscan.numbers.1, hnumbers.2.trans hscan.numbers.2⟩
      counts := fun hbase => by simpa [hprev] using hcounts (hscan.counts hbase) }
  · rw [hprev]
    intro old hmem
    obtain hbefore | hnew := List.mem_append.mp hmem
    · exact hscan.prev_sent old hbefore
    · obtain rfl : old = kept := by simpa using hnew
      exact hkept.2.trans (hscan.todo_sent xqe List.mem_cons_self)
  · intro addr haddr
    rw [hprev, List.map_append]
    obtain ⟨hsameq, -⟩ | ⟨hmore, -, -⟩ := hrexmit
    · exact List.mem_append_left _ (hscan.rexmitq addr (hsameq ▸ haddr))
    · rw [hmore] at haddr
      obtain hbefore | hnew := List.mem_append.mp haddr
      · exact List.mem_append_left _ (hscan.rexmitq addr hbefore)
      · exact List.mem_append_right _ (by simpa [hkept.1] using hnew)
  · obtain ⟨hsameq, -⟩ | ⟨hmore, -, -⟩ := hrexmit
    · rw [hsameq]
      exact hscan.rexmit_nodup
    · rw [hmore, List.nodup_append]
      refine ⟨hscan.rexmit_nodup, by simp, ?_⟩
      intro a ha b hb
      obtain rfl : b = xqe.addr := by simpa using hb
      exact hold a ha
  · obtain ⟨hsameq, hcnt⟩ | ⟨hmore, hcnt, -⟩ := hrexmit
    · rw [hsameq, hcnt, hscan.rexmit_cnt]
    · rw [hmore, hcnt, hscan.rexmit_cnt, List.length_append, List.length_singleton]
  · rw [hprev]
    intro old hmem haddr
    obtain hbefore | hnew := List.mem_append.mp hmem
    · refine hscan.rexmit_out old hbefore ?_
      obtain ⟨hsameq, -⟩ | ⟨hmore, -, -⟩ := hrexmit
      · rwa [hsameq] at haddr
      · rw [hmore] at haddr
        obtain hthere | hlast := List.mem_append.mp haddr
        · exact hthere
        · have heq : old.addr = xqe.addr := by simpa using hlast
          exact absurd (heq ▸ List.mem_map_of_mem hbefore) hnot
    · obtain rfl : old = kept := by simpa using hnew
      obtain ⟨hsameq, -⟩ | ⟨-, -, hout⟩ := hrexmit
      · rw [hsameq, hkept.1] at haddr
        exact absurd rfl (hold xqe.addr haddr)
      · exact hout

theorem Scanned.pass : Scanned (s.pass xqe (todo ++ unsent)) todo unsent base :=
  hscan.keep ⟨rfl, rfl⟩ rfl rfl rfl rfl rfl ⟨rfl, rfl⟩ (fun h => h) (.inl ⟨rfl, rfl⟩)

end

theorem Scanned.rexmit (or_last : Bool) (blast : Blast) (hscan : Scanned s (xqe :: todo) unsent base) :
    Scanned (Scan.rexmit { s with xq := uncount or_last s.xq xqe, blast } xqe (todo ++ unsent)) todo unsent base :=
  hscan.keep ⟨leave_window_addr xqe, leave_window_was_sent xqe⟩ rfl rfl rfl (uncount_first_unsent or_last xqe)
    (uncount_tail or_last xqe) ⟨uncount_next_fragnum or_last xqe, uncount_frag or_last xqe⟩
    (Tallied.leave _ or_last) (.inr ⟨rfl, rfl, rfl⟩)

theorem Scanned.scan_bit (fack_fragnum : BitVec 16) {number : BitVec 16} (acked : Bool) (hscan : Scanned s todo unsent base)
    (hnumber : ∀ first, unsent.head? = some first → number ≠ first.fragnum) :
    ∃ todo', Scanned (xmitq.scan_bit fack_fragnum number acked s) todo' unsent base := by
  unfold xmitq.scan_bit
  rw [hscan.curr]
  cases todo with
  | nil =>
    refine ⟨[], ?_⟩
    cases unsent with
    | nil => exact hscan
    | cons first rest =>
      dsimp only [List.nil_append]
      rw [if_pos (hnumber first rfl)]
      exact hscan
  | cons xqe todo =>
    dsimp only [List.cons_append]
    split_ifs
    · exact ⟨xqe :: todo, hscan⟩
    · exact ⟨todo, hscan.ack⟩
    · exact ⟨todo, hscan.rexmit false _⟩
    · exact ⟨todo, hscan.pass⟩

theorem Scanned.scan_mask (fack_fragnum : BitVec 16) (is_last : Bool) (n : ℕ) (mask : BitVec 32) (number : BitVec 16)
    (hscan : Scanned s todo unsent base)
    (hnumbers : ∀ first, unsent.head? = some first → first.fragnum ∉ mask_numbers is_last n mask number) :
    ∃ todo', Scanned (xmitq.scan_mask fack_fragnum is_last n mask number s) todo' unsent base := by
  induction n generalizing s todo mask number with
  | zero => exact ⟨todo, hscan⟩
  | succ n ih =>
    rw [xmitq.scan_mask]
    split_ifs with hstop
    · exact ⟨todo, hscan⟩
    · obtain ⟨hmask, -⟩ := not_or.mp hstop
      rw [mask_numbers, if_neg hmask] at hnumbers
      obtain ⟨todo', hscan'⟩ := hscan.scan_bit fack_fragnum (mask.getLsbD 0) (fun first hfirst heq =>
        hnumbers first hfirst (heq ▸ List.mem_cons_self))
      exact ih (mask >>> 1) (number + 1) hscan' fun first hfirst hmem =>
        hnumbers first hfirst (List.mem_cons_of_mem number hmem)

theorem Scanned.scan_masks (fack_fragnum : BitVec 16) (masks : List (BitVec 32)) (number : BitVec 16)
    (hscan : Scanned s todo unsent base)
    (hnumbers : ∀ first, unsent.head? = some first → first.fragnum ∉ numbers_named masks number) :
    ∃ todo', Scanned (xmitq.scan_masks fack_fragnum masks number s) todo' unsent base := by
  induction masks generalizing s todo number with
  | nil => exact ⟨todo, hscan⟩
  | cons mask rest ih =>
    rw [xmitq.scan_masks]
    rw [numbers_named] at hnumbers
    have hcounted : Scanned { s with words := s.words + 1 } todo unsent base := { hscan with }
    obtain ⟨todo', hscan'⟩ := hcounted.scan_mask fack_fragnum rest.isEmpty 32 mask number fun first hfirst hmem =>
      hnumbers first hfirst (List.mem_append_left _ hmem)
    split_ifs
    · exact ⟨todo', hscan'⟩
    · exact ih (number + 32) hscan' fun first hfirst hmem => hnumbers first hfirst (List.mem_append_right _ hmem)

theorem Scanned.first_unsent_ne (hscan : Scanned s todo unsent base) (hmem : xqe ∈ todo) :
    s.xq.first_unsent ≠ some xqe.addr := by
  rw [hscan.first_unsent]
  intro heq
  obtain ⟨first, hhead, haddr⟩ := Option.map_eq_some_iff.mp heq
  have hnodup := hscan.addrs
  rw [List.map_append, List.nodup_append, List.map_append, List.nodup_append] at hnodup
  refine hnodup.2.1.2.2 xqe.addr (List.mem_map_of_mem hmem) first.addr ?_ haddr.symm
  exact List.mem_map_of_mem (List.mem_of_head? hhead)

theorem Scanned.scan_rest (hscan : Scanned s todo unsent base) :
    ∃ s', xmitq.scan_rest s.xq.first_unsent s.curr s = some s' ∧ Scanned s' [] unsent base ∧ s'.words = s.words := by
  rw [hscan.curr]
  induction todo generalizing s with
  | nil =>
    cases unsent with
    | nil =>
      have hfirst : s.xq.first_unsent = none := hscan.first_unsent
      exact ⟨{ s with curr := [] }, if_pos hfirst, { hscan with curr := rfl }, rfl⟩
    | cons first rest =>
      have hfirst : s.xq.first_unsent = some first.addr := hscan.first_unsent
      exact ⟨{ s with curr := first :: rest }, if_pos hfirst, { hscan with curr := rfl }, rfl⟩
  | cons xqe todo ih =>
    have hne := hscan.first_unsent_ne List.mem_cons_self
    rw [List.cons_append, xmitq.scan_rest, if_neg hne]
    split_ifs
    · obtain ⟨s', hrest, hscan', hwords⟩ := ih (hscan.rexmit true s.blast)
      rw [show (Scan.rexmit { s with xq := uncount true s.xq xqe } xqe (todo ++ unsent)).xq.first_unsent = s.xq.first_unsent
        from uncount_first_unsent true xqe] at hrest
      exact ⟨s', hrest, hscan', hwords⟩
    · obtain ⟨s', hrest, hscan', hwords⟩ := ih hscan.pass
      exact ⟨s', hrest, hscan', hwords⟩

end Scanning

section Words

variable {s : Scan}

theorem walk_nil (numbers : List (BitVec 16)) : walk [] numbers = [] := by
  induction numbers with
  | nil => rfl
  | cons number numbers ih => simpa [walk] using ih

theorem scan_bit_walk (fack_fragnum number : BitVec 16) (acked : Bool) :
    (scan_bit fack_fragnum number acked s).curr.map (·.fragnum) = walk (s.curr.map (·.fragnum)) [number] ∧
      (scan_bit fack_fragnum number acked s).words = s.words := by
  unfold scan_bit
  cases hcurr : s.curr with
  | nil => exact ⟨by simp [hcurr, walk], rfl⟩
  | cons xqe rest =>
    dsimp only
    by_cases hnumber : number = xqe.fragnum
    · subst hnumber
      rw [if_neg (not_not.mpr rfl)]
      have hwalk : walk ((xqe :: rest).map (·.fragnum)) [xqe.fragnum] = rest.map (·.fragnum) := by simp [walk]
      rw [hwalk]
      split_ifs <;> exact ⟨rfl, rfl⟩
    · rw [if_pos hnumber]
      have hwalk : walk ((xqe :: rest).map (·.fragnum)) [number] = (xqe :: rest).map (·.fragnum) := by
        simp [walk, Ne.symm hnumber]
      rw [hwalk, hcurr]
      exact ⟨rfl, rfl⟩

theorem scan_mask_walk (fack_fragnum : BitVec 16) (is_last : Bool) (n : ℕ) (mask : BitVec 32) (number : BitVec 16) :
    (scan_mask fack_fragnum is_last n mask number s).curr.map (·.fragnum) =
        walk (s.curr.map (·.fragnum)) (mask_numbers is_last n mask number) ∧
      (scan_mask fack_fragnum is_last n mask number s).words = s.words := by
  induction n generalizing s mask number with
  | zero => exact ⟨rfl, rfl⟩
  | succ n ih =>
    rw [scan_mask, mask_numbers]
    obtain ⟨hcurr, hwords⟩ := scan_bit_walk (s := s) fack_fragnum number (mask.getLsbD 0)
    obtain ⟨hwalk, hsame⟩ := ih (s := scan_bit fack_fragnum number (mask.getLsbD 0) s) (mask >>> 1) (number + 1)
    by_cases hmask : mask = 0 ∧ is_last = true
    · rw [if_pos (.inl hmask), if_pos hmask]
      exact ⟨rfl, rfl⟩
    · rw [if_neg hmask]
      by_cases hempty : s.curr.isEmpty
      · rw [if_pos (.inr hempty), List.isEmpty_iff.mp hempty, List.map_nil, walk_nil]
        exact ⟨rfl, rfl⟩
      · rw [if_neg (not_or.mpr ⟨hmask, hempty⟩)]
        exact ⟨by rw [hwalk, hcurr]; rfl, hsame.trans hwords⟩

theorem scan_masks_words (fack_fragnum : BitVec 16) (masks : List (BitVec 32)) (number : BitVec 16) :
    (scan_masks fack_fragnum masks number s).words = s.words + masks_seen masks number (s.curr.map (·.fragnum)) := by
  induction masks generalizing s number with
  | nil => rfl
  | cons mask rest ih =>
    obtain ⟨hcurr, hwords⟩ :=
      scan_mask_walk (s := { s with words := s.words + 1 }) fack_fragnum rest.isEmpty 32 mask number
    rw [scan_masks, masks_seen]
    dsimp only at hcurr hwords ⊢
    rw [← hcurr]
    by_cases hempty : (scan_mask fack_fragnum rest.isEmpty 32 mask number { s with words := s.words + 1 }).curr = []
    · rw [if_pos (List.isEmpty_iff.mpr hempty), if_pos (List.map_eq_nil_iff.mpr hempty), hwords]
    · rw [if_neg (mt List.isEmpty_iff.mp hempty), if_neg (mt List.map_eq_nil_iff.mp hempty), ih, hwords]
      omega

end Words

section Selective

variable {s : Scan} {todo unsent : List rpc_dg_xmitq_elt_t} {base : rpc_dg_xmitq_t} {order : ByteOrder} {pkt : rpc_dg_fackpkt_t}

theorem Scanned.selective_ack (hscan : Scanned s todo unsent base)
    (hnumbers : ∀ first, unsent.head? = some first →
      first.fragnum ∉ numbers_named (masks order pkt) (pkt.fragnum + 1)) :
    ∃ s', do_selective_ack order pkt s = some s' ∧ Scanned s' [] unsent base ∧
      s'.words = s.words + masks_seen (masks order pkt) (pkt.fragnum + 1) ((todo ++ unsent).map (·.fragnum)) := by
  obtain ⟨todo', hmasks⟩ := hscan.scan_masks pkt.fragnum (masks order pkt) (pkt.fragnum + 1) hnumbers
  obtain ⟨s', hrest, hscan', hwords⟩ := hmasks.scan_rest
  refine ⟨s', hrest, hscan', ?_⟩
  rw [hwords, scan_masks_words, hscan.curr]

end Selective

section Fack

/-- What holds while a fack is processed: the queue has its shape, what was freed had been sent, each fragment that was in the
queue `base` before is still there or was freed, the packets to be retransmitted are out of the window, and counts that were
exact are. What was read is in the body if the fack is `inside`. -/
structure Facked (inside : Prop) (len : ℕ) (base : rpc_dg_xmitq_t) (p : Processed) (sent unsent : List rpc_dg_xmitq_elt_t) :
    Prop where
  shape : Shaped p.xq sent unsent
  freed_sent : ∀ xqe ∈ p.freed, xqe.was_sent = true
  kept : ((sent ++ unsent).map (·.addr) ++ p.freed.map (·.addr)).Perm (base.queue.map (·.addr))
  rexmit_nodup : p.xq.rexmitq.Nodup
  rexmit_cnt : p.rexmit_cnt = p.xq.rexmitq.length
  rexmit_out : ∀ xqe ∈ sent, xqe.addr ∈ p.xq.rexmitq → xqe.in_cwindow = false
  numbers : p.xq.next_fragnum = base.next_fragnum ∧ p.xq.frag = base.frag
  counts : Tallied base base.queue → Tallied p.xq (sent ++ unsent)
  reads : inside → ∀ span ∈ p.reads, span.off + span.len ≤ len

variable {order : ByteOrder} {around : Around} {pkt : rpc_dg_fackpkt_t} {xq base : rpc_dg_xmitq_t}
  {sent unsent : List rpc_dg_xmitq_elt_t} {p : Processed} {inside : Prop} {len : ℕ}

theorem Shaped.not_removed (hshape : Shaped xq sent unsent) (fragnum : BitVec 16) :
    xmitq.not_removed xq fragnum = sent.dropWhile (fun xqe => decide (serialLe xqe.fragnum fragnum)) ++ unsent := by
  have hnot : ∀ xqe ∈ sent, xqe.addr ∉ unsent.map (·.addr) := fun xqe hxqe =>
    hshape.notMem_unsent (List.mem_map_of_mem hxqe)
  unfold xmitq.not_removed
  rw [hshape.queue, hshape.first_unsent]
  clear hshape
  induction sent with
  | nil =>
    cases unsent with
    | nil => rfl
    | cons first rest => simp
  | cons xqe sent ih =>
    have hne : some xqe.addr ≠ unsent.head?.map (·.addr) := by
      intro heq
      obtain ⟨first, hhead, haddr⟩ := Option.map_eq_some_iff.mp heq.symm
      refine hnot xqe List.mem_cons_self ?_
      rw [← haddr]
      exact List.mem_map_of_mem (List.mem_of_head? hhead)
    have hrest := ih fun old hold => hnot old (List.mem_cons_of_mem xqe hold)
    by_cases hle : serialLe xqe.fragnum fragnum
    · rw [List.cons_append, List.dropWhile_cons_of_pos (by simp [hne, hle]), List.dropWhile_cons_of_pos (by simp [hle])]
      exact hrest
    · rw [List.cons_append, List.dropWhile_cons_of_neg (by simp [hle]), List.dropWhile_cons_of_neg (by simp [hle])]
      rfl

/-- The fragments that the first loop removes, and those that it leaves. -/
def removed (sent : List rpc_dg_xmitq_elt_t) (fragnum : BitVec 16) : List rpc_dg_xmitq_elt_t :=
  sent.takeWhile fun xqe => decide (serialLe xqe.fragnum fragnum)

def remaining (sent : List rpc_dg_xmitq_elt_t) (fragnum : BitVec 16) : List rpc_dg_xmitq_elt_t :=
  sent.dropWhile fun xqe => decide (serialLe xqe.fragnum fragnum)

variable (sent) in
theorem removed_append_remaining (fragnum : BitVec 16) : removed sent fragnum ++ remaining sent fragnum = sent :=
  List.takeWhile_append_dropWhile

/-- The queue with which the processing of a fack starts. -/
def fack_started (order : ByteOrder) (pkt : rpc_dg_fackpkt_t) (xq : rpc_dg_xmitq_t) : rpc_dg_xmitq_t :=
  { xq with
    rexmitq := []
    last_fack_serial := if using_selacks pkt then serial_num order pkt else xq.last_fack_serial }

theorem Shaped.fack_remove (hshape : Shaped xq sent unsent) :
    ∃ p, xmitq.fack_remove order pkt xq = some p ∧ Shaped p.xq (remaining sent pkt.fragnum) unsent ∧
      p.freed = removed sent pkt.fragnum ∧
      (∃ queue tail, p.xq =
        { (removed sent pkt.fragnum).foldl (uncount false) (fack_started order pkt xq) with queue, tail }) ∧
      p.rexmit_cnt = 0 ∧
      p.reads = if using_selacks pkt then [⟨0, 1⟩, ⟨OFF_SERIAL_NUM, 2⟩] else if pkt.len > 12 then [⟨0, 1⟩] else [] := by
  obtain ⟨s', hloop, hfreed, hxq⟩ := remove_loop_spec
    { xq := fack_started order pkt xq, blast := { curr_serial := xq.last_fack_serial, window_incr := 0 }, freed := [] }
    hshape.first_unsent (fun xqe hxqe => hshape.notMem_unsent (List.mem_map_of_mem hxqe))
  rw [← hshape.queue] at hloop
  obtain ⟨hfirst, htail, hrexmitq, -, -⟩ :=
    foldl_uncount_spec (fack_started order pkt xq) false (removed sent pkt.fragnum)
  have hsplit := removed_append_remaining sent pkt.fragnum
  have hfirst' : s'.xq.first_unsent = xq.first_unsent := by rw [hxq]; exact hfirst
  have htail' : s'.xq.tail = xq.tail := by rw [hxq]; exact htail
  have hrexmitq' : s'.xq.rexmitq = [] := by rw [hxq]; exact hrexmitq
  have hxq' : s'.xq = (removed sent pkt.fragnum).foldl (uncount false) (fack_started order pkt xq) := hxq
  unfold xmitq.fack_remove
  dsimp only
  rw [← fack_started, hloop]
  refine ⟨_, rfl, ?_, hfreed, ?_, rfl, rfl⟩
  swap
  · exact ⟨_, if remaining sent pkt.fragnum ++ unsent = [] then none else s'.xq.tail, by rw [← hxq']; rfl⟩
  refine
    { queue := rfl
      addrs := ?_
      sent_sent := fun xqe hxqe => hshape.sent_sent xqe (hsplit ▸ List.mem_append_right _ hxqe)
      unsent_not := hshape.unsent_not
      first_unsent := hfirst'.trans hshape.first_unsent
      tail := ?_
      rexmitq := fun addr haddr => by rw [hrexmitq'] at haddr; exact absurd haddr List.not_mem_nil }
  · have hsub : (remaining sent pkt.fragnum ++ unsent).Sublist (sent ++ unsent) :=
      (List.dropWhile_sublist _).append_right unsent
    exact hshape.addrs.sublist (hsub.map _)
  · dsimp only
    by_cases hempty : remaining sent pkt.fragnum ++ unsent = []
    · refine (if_pos hempty).trans ?_
      rw [hempty]
      rfl
    · refine (if_neg hempty).trans (htail'.trans (hshape.tail.trans ?_))
      rw [← hsplit, List.append_assoc, List.getLast?_append_of_ne_nil _ hempty, hsplit]

/-- Two queues have the same links and counts; their timers and blasts may differ. -/
structure SameQueue (xq' xq : rpc_dg_xmitq_t) : Prop where
  queue : xq'.queue = xq.queue
  first_unsent : xq'.first_unsent = xq.first_unsent
  tail : xq'.tail = xq.tail
  rexmitq : xq'.rexmitq = xq.rexmitq
  next_fragnum : xq'.next_fragnum = xq.next_fragnum
  cwindow_size : xq'.cwindow_size = xq.cwindow_size
  freqs_out : xq'.freqs_out = xq.freqs_out
  frag : xq'.frag = xq.frag

theorem SameQueue.trans {xq'' xq' : rpc_dg_xmitq_t} (hleft : SameQueue xq'' xq') (hright : SameQueue xq' xq) :
    SameQueue xq'' xq where
  queue := hleft.queue.trans hright.queue
  first_unsent := hleft.first_unsent.trans hright.first_unsent
  tail := hleft.tail.trans hright.tail
  rexmitq := hleft.rexmitq.trans hright.rexmitq
  next_fragnum := hleft.next_fragnum.trans hright.next_fragnum
  cwindow_size := hleft.cwindow_size.trans hright.cwindow_size
  freqs_out := hleft.freqs_out.trans hright.freqs_out
  frag := hleft.frag.trans hright.frag

theorem raise_blast_same : SameQueue (raise_blast xq) xq := by
  unfold raise_blast
  split_ifs <;> exact ⟨rfl, rfl, rfl, rfl, rfl, rfl, rfl, rfl⟩

theorem lower_blast_same : SameQueue (lower_blast xq) xq := by
  unfold lower_blast
  split_ifs <;> exact ⟨rfl, rfl, rfl, rfl, rfl, rfl, rfl, rfl⟩

theorem adjust_blast_same (rexmit_cnt : ℕ) : SameQueue (adjust_blast xq rexmit_cnt) xq := by
  obtain ⟨counted, hcounted, hadjust⟩ : ∃ counted, SameQueue counted xq ∧
      adjust_blast xq rexmit_cnt = if counted.xq_timer = 0 then raise_blast counted else counted := by
    refine ⟨_, ?_, rfl⟩
    split_ifs
    · exact lower_blast_same
    · exact ⟨rfl, rfl, rfl, rfl, rfl, rfl, rfl, rfl⟩
    · exact ⟨rfl, rfl, rfl, rfl, rfl, rfl, rfl, rfl⟩
  rw [hadjust]
  split_ifs
  · exact raise_blast_same.trans hcounted
  · exact hcounted

theorem Facked.with_queue {q : Processed} (hp : Facked inside len base p sent unsent) (hsame : SameQueue q.xq p.xq)
    (hfreed : q.freed = p.freed) (hcnt : q.rexmit_cnt = p.rexmit_cnt)
    (hreads : inside → ∀ span ∈ q.reads, span ∈ p.reads ∨ span.off + span.len ≤ len) : Facked inside len base q sent unsent where
  shape := hp.shape.congr hsame.queue hsame.first_unsent hsame.tail (by rw [hsame.rexmitq]; exact hp.shape.rexmitq)
  freed_sent := by rw [hfreed]; exact hp.freed_sent
  kept := by rw [hfreed]; exact hp.kept
  rexmit_nodup := by rw [hsame.rexmitq]; exact hp.rexmit_nodup
  rexmit_cnt := by rw [hcnt, hsame.rexmitq]; exact hp.rexmit_cnt
  rexmit_out := by rw [hsame.rexmitq]; exact hp.rexmit_out
  numbers := ⟨hsame.next_fragnum.trans hp.numbers.1, hsame.frag.trans hp.numbers.2⟩
  counts := fun hbase => (hp.counts hbase).congr hsame.cwindow_size hsame.freqs_out hsame.frag
  reads := by
    intro hin span hspan
    obtain hold | hnew := hreads hin span hspan
    · exact hp.reads hin span hold
    · exact hnew

theorem Scanned.facked {s : Scan} (hscan : Scanned s [] unsent base)
    (hreads : inside → ∀ span ∈ p.reads, span.off + span.len ≤ len) (hwords : inside → OFF_SELACK + 4 * s.words ≤ len) :
    Facked inside len base (end_scan p s) s.prev unsent where
  shape :=
    { queue := by simp [end_scan, hscan.curr]
      addrs := hscan.addrs
      sent_sent := hscan.prev_sent
      unsent_not := hscan.unsent_not
      first_unsent := hscan.first_unsent
      tail := hscan.tail
      rexmitq := hscan.rexmitq }
  freed_sent := hscan.freed_sent
  kept := hscan.kept
  rexmit_nodup := hscan.rexmit_nodup
  rexmit_cnt := hscan.rexmit_cnt
  rexmit_out := hscan.rexmit_out
  numbers := hscan.numbers
  counts := fun hbase => (hscan.counts hbase).congr rfl rfl rfl
  reads := by
    intro hin span hspan
    have hroom := hwords hin
    obtain hold | hnew := List.mem_append.mp hspan
    · exact hreads hin span hold
    · obtain rfl | hmask := List.mem_cons.mp hnew
      · dsimp only [OFF_SELACK_LEN, OFF_SELACK] at hroom ⊢
        omega
      · obtain ⟨i, hi, rfl⟩ := List.mem_map.mp hmask
        rw [List.mem_range] at hi
        dsimp only
        omega

theorem Facked.start_scan (hp : Facked inside len base p sent unsent) (hrexmitq : p.xq.rexmitq = []) :
    Scanned (xmitq.start_scan p) sent unsent base where
  curr := hp.shape.queue
  addrs := hp.shape.addrs
  prev_sent := fun xqe hxqe => absurd hxqe List.not_mem_nil
  todo_sent := hp.shape.sent_sent
  freed_sent := hp.freed_sent
  unsent_not := hp.shape.unsent_not
  first_unsent := hp.shape.first_unsent
  tail := hp.shape.tail
  rexmitq := by
    intro addr haddr
    rw [show (xmitq.start_scan p).rexmitq = p.xq.rexmitq from rfl, hrexmitq] at haddr
    exact absurd haddr List.not_mem_nil
  rexmit_nodup := hp.rexmit_nodup
  rexmit_cnt := hp.rexmit_cnt
  rexmit_out := fun xqe hxqe => absurd hxqe List.not_mem_nil
  kept := hp.kept
  numbers := hp.numbers
  counts := hp.counts

variable (order) in
theorem Facked.selacks (hp : Facked inside len base p sent unsent) (hrexmitq : p.xq.rexmitq = [])
    (hnumbers : pkt.len > 12 → ∀ first, unsent.head? = some first →
      first.fragnum ∉ numbers_named (masks order pkt) (pkt.fragnum + 1))
    (hwords : inside → pkt.len > 12 → p.xq.queue ≠ [] →
      OFF_SELACK + 4 * masks_seen (masks order pkt) (pkt.fragnum + 1) (p.xq.queue.map (·.fragnum)) ≤ len) :
    ∃ q sent', fack_selacks order pkt p = some q ∧ Facked inside len base q sent' unsent := by
  unfold fack_selacks
  by_cases hsome : pkt.len > 12 ∧ p.xq.queue ≠ []
  · obtain ⟨s', hselack, hscan, hcount⟩ := (hp.start_scan hrexmitq).selective_ack (hnumbers hsome.1)
    refine ⟨end_scan p s', s'.prev, by rw [if_pos hsome, hselack]; rfl, hscan.facked hp.reads fun hin => ?_⟩
    rw [hcount, ← hp.shape.queue]
    simpa [xmitq.start_scan] using hwords hin hsome.1 hsome.2
  · exact ⟨p, sent, if_neg hsome, hp⟩

theorem Facked.sizes (hp : Facked inside len base p sent unsent) (snd_frag_size : BitVec 32) :
    Facked inside len base (fack_sizes around p snd_frag_size) sent unsent :=
  hp.with_queue ⟨rfl, rfl, rfl, rfl, rfl, rfl, rfl, rfl⟩ rfl rfl fun _ _ hspan => .inl hspan

theorem Facked.body (hp : Facked inside pkt.len.toNat base p sent unsent) (hrexmitq : p.xq.rexmitq = [])
    (hlen : pkt.len ≠ 0)
    (hnumbers : using_selacks pkt = true → ∀ first, unsent.head? = some first →
      first.fragnum ∉ numbers_named (masks order pkt) (pkt.fragnum + 1))
    (hsizes : inside → vers pkt = RPC_C_DG_FACKPKT_BODY_VERS → 12 ≤ pkt.len.toNat)
    (hwords : inside → using_selacks pkt = true → p.xq.queue ≠ [] →
      OFF_SELACK + 4 * masks_seen (masks order pkt) (pkt.fragnum + 1) (p.xq.queue.map (·.fragnum)) ≤ pkt.len.toNat) :
    ∃ q sent', do_fack_body order around pkt p = some q ∧ Facked inside pkt.len.toNat base q sent' unsent := by
  have hpos : 1 ≤ pkt.len.toNat := by
    have : pkt.len.toNat ≠ 0 := fun h => hlen (BitVec.eq_of_toNat_eq h)
    omega
  unfold do_fack_body
  dsimp only
  by_cases hvers : vers pkt ≠ RPC_C_DG_FACKPKT_BODY_VERS
  · rw [if_pos hvers]
    refine ⟨_, sent, rfl, hp.with_queue ⟨rfl, rfl, rfl, rfl, rfl, rfl, rfl, rfl⟩ rfl rfl fun _ span hspan => ?_⟩
    obtain hold | hnew := List.mem_append.mp hspan
    · exact .inl hold
    · obtain rfl : span = ⟨0, 1⟩ := by simpa using hnew
      exact .inr (by simpa using hpos)
  · rw [if_neg hvers]
    have hvers' : vers pkt = RPC_C_DG_FACKPKT_BODY_VERS := not_not.mp hvers
    have hselacks : pkt.len > 12 → using_selacks pkt = true := fun h => by simpa [using_selacks, hvers'] using h
    let sized : Processed :=
      { p with
        xq := { p.xq with window_size := window_size order pkt }
        reads := p.reads ++ [⟨0, 1⟩] ++ [⟨OFF_WINDOW_SIZE, 2⟩, ⟨OFF_MAX_TSDU, 4⟩, ⟨OFF_MAX_FRAG_SIZE, 4⟩] }
    have hsized : Facked inside pkt.len.toNat base sized sent unsent := by
      refine hp.with_queue ⟨rfl, rfl, rfl, rfl, rfl, rfl, rfl, rfl⟩ rfl rfl fun hin span hspan => ?_
      have hcover := hsizes hin hvers'
      dsimp only [sized] at hspan
      simp only [List.mem_append, List.mem_cons, List.not_mem_nil, or_false, OFF_WINDOW_SIZE, OFF_MAX_TSDU,
        OFF_MAX_FRAG_SIZE] at hspan
      obtain (hold | rfl) | rfl | rfl | rfl := hspan
      · exact .inl hold
      all_goals
        right
        dsimp only
        omega
    obtain ⟨q, sent', hq, hfacked⟩ := hsized.selacks order hrexmitq (fun h => hnumbers (hselacks h))
      (fun hin h => hwords hin (hselacks h))
    exact ⟨_, sent', congrArg _ hq, hfacked.sizes (fack_frag_size order pkt sized.xq)⟩

theorem Shaped.ready_to_go (hshape : Shaped xq sent unsent) (rexmit_cnt : ℕ) :
    xmitq.ready_to_go xq rexmit_cnt =
      some (unsent.head?.elim (BitVec.ofNat 32 rexmit_cnt) fun first =>
        BitVec.ofInt 32 (rexmit_cnt + (xq.next_fragnum.toNat - first.fragnum.toInt))) := by
  unfold xmitq.ready_to_go
  rw [hshape.first_unsent]
  cases unsent with
  | nil => rfl
  | cons first rest =>
    have hfind : (xq.queue.find? fun xqe => xqe.addr = first.addr) = some first := by
      have hnone : (sent.find? fun xqe => xqe.addr = first.addr) = none := by
        refine List.find?_eq_none.mpr fun xqe hxqe heq => hshape.notMem_sent ?_
        rw [← of_decide_eq_true heq]
        exact List.mem_map_of_mem hxqe
      rw [hshape.queue, List.find?_append, hnone]
      simp
    simp only [List.head?_cons, Option.map_some, hfind, Option.elim_some]

/-- The number of packets that are ready is the number of those to be retransmitted and of those not sent, when the difference
of the fragment numbers is. -/
def CountsUnsent (xq : rpc_dg_xmitq_t) (unsent : List rpc_dg_xmitq_elt_t) : Prop :=
  ∀ first, unsent.head? = some first →
    0 ≤ (xq.next_fragnum.toNat - first.fragnum.toInt : ℤ) ∧
      (xq.next_fragnum.toNat - first.fragnum.toInt : ℤ) ≤ unsent.length

theorem Facked.set_blast (hp : Facked inside len base p sent unsent) :
    ∃ q, xmitq.set_blast p = some q ∧ Facked inside len base q sent unsent ∧
      (CountsUnsent base unsent → q.xq.blast_size.toNat ≤ q.xq.rexmitq.length + unsent.length) := by
  have hsame : SameQueue (adjust_blast p.xq p.rexmit_cnt) p.xq := adjust_blast_same p.rexmit_cnt
  have hshape : Shaped (adjust_blast p.xq p.rexmit_cnt) sent unsent :=
    hp.shape.congr hsame.queue hsame.first_unsent hsame.tail (by rw [hsame.rexmitq]; exact hp.shape.rexmitq)
  unfold xmitq.set_blast
  dsimp only
  rw [hshape.ready_to_go]
  refine ⟨_, rfl, hp.with_queue { hsame with } rfl rfl fun _ _ hspan => .inl hspan, fun hcount => ?_⟩
  have hready : (unsent.head?.elim (BitVec.ofNat 32 p.rexmit_cnt) fun first =>
      BitVec.ofInt 32 (p.rexmit_cnt + ((adjust_blast p.xq p.rexmit_cnt).next_fragnum.toNat - first.fragnum.toInt))).toNat ≤
      p.xq.rexmitq.length + unsent.length := by
    rw [← hp.rexmit_cnt, hsame.next_fragnum, hp.numbers.1]
    cases hfirst : unsent.head? with
    | none =>
      rw [Option.elim_none, BitVec.toNat_ofNat]
      exact (Nat.mod_le _ _).trans (Nat.le_add_right _ _)
    | some first =>
      obtain ⟨hlow, hhigh⟩ := hcount first hfirst
      obtain ⟨n, hn⟩ := Int.eq_ofNat_of_zero_le hlow
      have hsum : (p.rexmit_cnt + (base.next_fragnum.toNat - first.fragnum.toInt) : ℤ) = ((p.rexmit_cnt + n : ℕ) : ℤ) := by
        rw [hn]
        push_cast
        rfl
      rw [Option.elim_some, hsum, BitVec.ofInt_natCast, BitVec.toNat_ofNat]
      exact (Nat.mod_le _ _).trans (by omega)
  dsimp only [Option.map_some]
  rw [hsame.rexmitq, BitVec.toNat_ofNat]
  refine (Nat.mod_le _ _).trans ?_
  split_ifs with hlt
  · exact hready
  · omega

theorem long_fack (hlong : pkt.len > 12) : pkt.len ≠ 0 ∧ 12 < pkt.len.toNat := by
  have hlt : 12 < pkt.len.toNat := hlong
  exact ⟨by rintro heq; rw [heq] at hlt; exact absurd hlt (by decide), hlt⟩

theorem uses_selacks (huse : using_selacks pkt = true) : pkt.len > 12 ∧ vers pkt = RPC_C_DG_FACKPKT_BODY_VERS := by
  simpa [using_selacks] using huse

theorem Shaped.fack_removed (hshape : Shaped xq sent unsent) :
    ∃ p, xmitq.fack_remove order pkt xq = some p ∧
      Facked (CoversBody order pkt xq) pkt.len.toNat xq p (remaining sent pkt.fragnum) unsent ∧ p.xq.rexmitq = [] ∧
      p.freed = removed sent pkt.fragnum := by
  obtain ⟨p, hremove, hleft, hfreed, ⟨queue, tail, hxq⟩, hcnt, hreads⟩ := hshape.fack_remove
  obtain ⟨-, -, hlost, hnext, hfrag⟩ :=
    foldl_uncount_spec (fack_started order pkt xq) false (removed sent pkt.fragnum)
  have hrexmitq : p.xq.rexmitq = [] := by rw [hxq]; exact hlost
  have hsplit := removed_append_remaining sent pkt.fragnum
  refine ⟨p, hremove, ?_, hrexmitq, hfreed⟩
  refine
    { shape := hleft
      freed_sent := ?_
      kept := ?_
      rexmit_nodup := by rw [hrexmitq]; exact List.nodup_nil
      rexmit_cnt := by rw [hcnt, hrexmitq]; rfl
      rexmit_out := fun xqe _ haddr => by rw [hrexmitq] at haddr; exact absurd haddr List.not_mem_nil
      numbers := by rw [hxq]; exact ⟨hnext, hfrag⟩
      counts := fun hbase => ?_
      reads := fun hcovers => ?_ }
  · rw [hfreed]
    exact fun xqe hxqe => hshape.sent_sent xqe (hsplit ▸ List.mem_append_left _ hxqe)
  · rw [hfreed, hshape.queue]
    nth_rewrite 3 [← hsplit]
    refine List.perm_iff_count.mpr fun addr => ?_
    simp only [List.map_append, List.count_append]
    omega
  · rw [hshape.queue, ← hsplit, List.append_assoc] at hbase
    have hstarted : Tallied (fack_started order pkt xq)
        (removed sent pkt.fragnum ++ (remaining sent pkt.fragnum ++ unsent)) := hbase.congr rfl rfl rfl
    rw [hxq]
    exact (hstarted.foldl_uncount false).congr rfl rfl rfl
  · rw [hreads]
    intro span hspan
    split_ifs at hspan with huse hlong
    · obtain ⟨hlong, hvers⟩ := uses_selacks huse
      obtain ⟨hne, hlt⟩ := long_fack hlong
      have hcover := ((hcovers hne hvers).2 hlt).1
      simp only [List.mem_cons, List.not_mem_nil, or_false, OFF_SERIAL_NUM] at hspan
      obtain rfl | rfl := hspan
      all_goals
        dsimp only
        omega
    · obtain rfl : span = ⟨0, 1⟩ := by simpa using hspan
      have hlt := (long_fack hlong).2
      dsimp only
      omega
    · exact absurd hspan List.not_mem_nil

theorem Shaped.fack_common (hshape : Shaped xq sent unsent) (hnames : NamesSent order pkt xq) :
    ∃ p sent', rpc__dg_fack_common order around pkt xq = some p ∧
      Facked (CoversBody order pkt xq) pkt.len.toNat xq p sent' unsent ∧
      (CountsUnsent xq unsent → p.xq.blast_size.toNat ≤ p.xq.rexmitq.length + unsent.length) := by
  obtain ⟨p, hremove, hp, hrexmitq, -⟩ := hshape.fack_removed
  have hqueue : p.xq.queue = xmitq.not_removed xq pkt.fragnum :=
    hp.shape.queue.trans (hshape.not_removed pkt.fragnum).symm
  have hbody : ∃ q sent', (if pkt.len > 0 then do_fack_body order around pkt p else some p) = some q ∧
      Facked (CoversBody order pkt xq) pkt.len.toNat xq q sent' unsent := by
    by_cases hpos : pkt.len > 0
    · have hnz : pkt.len ≠ 0 := by rintro heq; rw [heq] at hpos; exact absurd hpos (by decide)
      rw [if_pos hpos]
      refine hp.body hrexmitq hnz ?_ (fun hcovers hvers => (hcovers hnz hvers).1) ?_
      · intro huse first hfirst
        refine hnames huse first ?_ ?_
        · rw [hshape.queue]
          exact List.mem_append_right _ (List.mem_of_head? hfirst)
        · rw [hshape.first_unsent, hfirst]
          rfl
      · intro hcovers huse hne
        obtain ⟨hlong, hvers⟩ := uses_selacks huse
        rw [hqueue] at hne ⊢
        exact ((hcovers hnz hvers).2 (long_fack hlong).2).2 hne
    · rw [if_neg hpos]
      exact ⟨p, _, rfl, hp⟩
  obtain ⟨q, sent', hq, hfacked⟩ := hbody
  obtain ⟨r, hr, hfacked', hblast⟩ := hfacked.set_blast
  refine ⟨r, sent', ?_, hfacked', hblast⟩
  rw [rpc__dg_fack_common, hremove, Option.bind_some, hq, Option.bind_some, hr]

end Fack

end dce.rpc.xmitq
