import Dce.Rpc.Recvq

open lib

namespace dce.rpc.dg

/-- The fragment numbers of a queue, counted on without wrapping around: those in order end at the next one awaited, the others
follow it with gaps. -/
def numbers (next inorder : ℕ) (others : List ℕ) : List ℕ := List.range' (next - inorder) inorder ++ others

/-- Elements whose fragments have the given numbers, and whose headers are there. -/
structure Numbered (queue : List rpc_dg_recvq_elt_t) (ns : List ℕ) : Prop where
  fragnums : queue.map (·.hdr.fragnum) = ns.map (BitVec.ofNat 16)
  headers : ∀ rqe ∈ queue, rqe.taken = false

/-- A receive queue that is described by the number awaited next, how many fragments in front of it are queued, and the numbers
of those behind it. Only the last of these may lie as far from the head as the limit to the queue. -/
structure Describes (rq : rpc_dg_recvq_t) (next inorder : ℕ) (others : List ℕ) : Prop where
  fragnums : rq.head.map (·.hdr.fragnum) = (numbers next inorder others).map (BitVec.ofNat 16)
  headers : ∀ rqe ∈ rq.head.tail, rqe.taken = false
  head_header : inorder = 0 → ∀ rqe ∈ rq.head, rqe.taken = false
  next_pos : 0 < next
  inorder_le : inorder ≤ next
  next_fragnum : rq.next_fragnum = BitVec.ofNat 16 next
  above : ∀ n ∈ others, next < n ∧ n < next + rq.max_queue_len.toNat
  spread : others.Pairwise fun a b => a < b ∧ a + inorder < next + rq.max_queue_len.toNat
  room : inorder + others.length ≤ rq.max_queue_len.toNat
  limit_pos : 0 < rq.max_queue_len.toNat
  limit_le : rq.max_queue_len.toNat ≤ RPC_C_DG_MAX_RECVQ_LEN.toNat
  last_inorder : rq.last_inorder = if inorder = 0 then none else some (inorder - 1)
  inorder_len : rq.inorder_len = BitVec.ofNat 8 inorder
  queue_len : rq.queue_len = BitVec.ofNat 8 (inorder + others.length)
  head_fragnum : ∀ n ∈ (numbers next inorder others).head?, rq.head_fragnum = BitVec.ofNat 16 n
  high_fragnum : rq.high_fragnum = BitVec.ofNat 16 (others.getLast?.getD (next - 1))

@[simp] theorem length_numbers (next inorder : ℕ) (others : List ℕ) :
    (numbers next inorder others).length = inorder + others.length := by
  simp [numbers]

theorem fragnum_eq {rqe : rpc_dg_recvq_elt_t} (hheader : rqe.taken = false) : rqe.fragnum = some rqe.hdr.fragnum := by
  simp [rpc_dg_recvq_elt_t.fragnum, rpc_dg_recvq_elt_t.hdrp, hheader]

theorem ofNat_inj {a b : ℕ} (hle : a ≤ b) (hlt : b < a + 2 ^ 16) : BitVec.ofNat 16 a = BitVec.ofNat 16 b ↔ a = b := by
  rw [← BitVec.toNat_inj, BitVec.toNat_ofNat, BitVec.toNat_ofNat]
  omega

theorem ofNat_sub_ofNat {a b : ℕ} (hle : b ≤ a) : BitVec.ofNat 16 a - BitVec.ofNat 16 b = BitVec.ofNat 16 (a - b) := by
  have hsum := BitVec.ofNat_add (n := 16) (a - b) b
  rw [Nat.sub_add_cancel hle] at hsum
  rw [hsum]
  exact BitVec.add_sub_cancel _ _

theorem inorder_run_spec {queue : List rpc_dg_recvq_elt_t} {ns : List ℕ} {n : ℕ} (hnumbered : Numbered queue ns)
    (hwithin : ∀ a ∈ ns, n ≤ a ∧ a < n + 2 ^ 15) (hsorted : ns.Pairwise (· < ·)) :
    ∃ run, inorder_run queue (BitVec.ofNat 16 n) = run ∧ run ≤ ns.length ∧ ns.take run = List.range' n run ∧
      ∀ a ∈ ns.drop run, n + run < a := by
  induction ns generalizing queue n with
  | nil =>
    obtain rfl : queue = [] := by simpa using hnumbered.fragnums
    exact ⟨0, rfl, le_rfl, rfl, by simp⟩
  | cons a ns ih =>
    obtain ⟨rqe, queue, rfl⟩ : ∃ rqe rest, queue = rqe :: rest := by
      cases queue with
      | nil => simpa using hnumbered.fragnums
      | cons rqe rest => exact ⟨rqe, rest, rfl⟩
    obtain ⟨hfirst, hrest⟩ : rqe.hdr.fragnum = BitVec.ofNat 16 a ∧
        queue.map (·.hdr.fragnum) = ns.map (BitVec.ofNat 16) := by simpa using hnumbered.fragnums
    have hheader := hnumbered.headers rqe List.mem_cons_self
    obtain ⟨hless, htail⟩ := List.pairwise_cons.mp hsorted
    have ha := hwithin a List.mem_cons_self
    rw [inorder_run, fragnum_eq hheader, hfirst]
    by_cases heq : n = a
    · subst heq
      rw [if_pos rfl]
      obtain ⟨run, hrun, hle, htake, hdrop⟩ := ih (n := n + 1)
        ⟨hrest, fun rqe hmem => hnumbered.headers rqe (List.mem_cons_of_mem _ hmem)⟩
        (fun b hb => ⟨hless b hb, by have := hwithin b (List.mem_cons_of_mem _ hb); omega⟩) htail
      refine ⟨run + 1, ?_, by simpa using hle, ?_, fun b hb => ?_⟩
      · rw [← hrun, BitVec.ofNat_add]
        rfl
      · rw [List.take_succ_cons, htake, List.range'_succ]
      · have := hdrop b (by simpa using hb)
        omega
    · have hne : ¬ some (BitVec.ofNat 16 a) = some (BitVec.ofNat 16 n) := by
        rw [Option.some.injEq, eq_comm, ofNat_inj ha.1 (by omega)]
        exact heq
      rw [if_neg hne]
      refine ⟨0, rfl, Nat.zero_le _, rfl, fun b hb => ?_⟩
      obtain rfl | hb := List.mem_cons.mp hb
      · omega
      · have := hless b hb
        omega

theorem scan_below_spec {queue : List rpc_dg_recvq_elt_t} {ns : List ℕ} {n : ℕ} (hnumbered : Numbered queue ns)
    (hwithin : ∀ a ∈ ns, a < n + 2 ^ 15 ∧ n < a + 2 ^ 15) (hsorted : ns.Pairwise (· < ·)) :
    ∃ place, scan_below queue (BitVec.ofNat 16 n) = place ∧ place ≤ ns.length ∧ (∀ a ∈ ns.take place, a < n) ∧
      ∀ a ∈ ns.drop place, n ≤ a := by
  induction ns generalizing queue with
  | nil =>
    obtain rfl : queue = [] := by simpa using hnumbered.fragnums
    exact ⟨0, rfl, le_rfl, by simp, by simp⟩
  | cons a ns ih =>
    obtain ⟨rqe, queue, rfl⟩ : ∃ rqe rest, queue = rqe :: rest := by
      cases queue with
      | nil => simpa using hnumbered.fragnums
      | cons rqe rest => exact ⟨rqe, rest, rfl⟩
    obtain ⟨hfirst, hrest⟩ : rqe.hdr.fragnum = BitVec.ofNat 16 a ∧
        queue.map (·.hdr.fragnum) = ns.map (BitVec.ofNat 16) := by simpa using hnumbered.fragnums
    have hheader := hnumbered.headers rqe List.mem_cons_self
    obtain ⟨hless, htail⟩ := List.pairwise_cons.mp hsorted
    have ha := hwithin a List.mem_cons_self
    have hcompare : serialLt (BitVec.ofNat 16 a) (BitVec.ofNat 16 n) ↔ a < n :=
      serialLt_ofNat_iff (w := 15) (by omega) (by omega)
    rw [scan_below, fragnum_eq hheader, hfirst]
    by_cases hlt : a < n
    · rw [if_pos (by simpa using hcompare.mpr hlt)]
      obtain ⟨place, hplace, hle, hbelow, habove⟩ := ih
        ⟨hrest, fun rqe hmem => hnumbered.headers rqe (List.mem_cons_of_mem _ hmem)⟩
        (fun b hb => hwithin b (List.mem_cons_of_mem _ hb)) htail
      refine ⟨place + 1, by rw [hplace], by simpa using hle, ?_, by simpa using habove⟩
      simpa using ⟨hlt, hbelow⟩
    · rw [if_neg (by simpa using fun h => hlt (hcompare.mp h))]
      refine ⟨0, rfl, Nat.zero_le _, by simp, fun b hb => ?_⟩
      obtain rfl | hb := List.mem_cons.mp hb
      · omega
      · have := hless b hb
        omega

/-- What is queued when the limit is lowered lies in the window that is left: all but the last element below the limit from the
head on, the last one below the limit from the next awaited fragment on. -/
def KeepsWindow (rq : rpc_dg_recvq_t) (limit : ℕ) : Prop :=
  (∀ rqe ∈ rq.head.dropLast, serialLt rqe.hdr.fragnum (rq.head_fragnum + BitVec.ofNat 16 limit)) ∧
    ∀ rqe ∈ rq.head.getLast?, serialLt rqe.hdr.fragnum (rq.next_fragnum + BitVec.ofNat 16 limit)

instance (rq : rpc_dg_recvq_t) (limit : ℕ) : Decidable (KeepsWindow rq limit) := by
  unfold KeepsWindow
  infer_instance

theorem mbf_queue_len_le (around : Surroundings) : mbf_queue_len around ≤ RPC_C_DG_MAX_RECVQ_LEN.toNat :=
  Nat.div_le_self _ _

theorem pairwise_and_dropLast {α : Type} {R : α → α → Prop} {P : α → Prop} {l : List α} (hR : l.Pairwise R)
    (hP : ∀ a ∈ l.dropLast, P a) : l.Pairwise fun a b => R a b ∧ P a := by
  induction l with
  | nil => exact .nil
  | cons a l ih =>
    obtain ⟨hfirst, hrest⟩ := List.pairwise_cons.mp hR
    cases l with
    | nil => simp
    | cons b l =>
      rw [List.dropLast_cons_cons] at hP
      exact List.pairwise_cons.mpr ⟨fun c hc => ⟨hfirst c hc, hP a List.mem_cons_self⟩,
        ih hrest fun c hc => hP c (List.mem_cons_of_mem _ hc)⟩

theorem numbers_dropLast {next inorder : ℕ} {others : List ℕ} (hne : others ≠ []) :
    (numbers next inorder others).dropLast = List.range' (next - inorder) inorder ++ others.dropLast :=
  List.dropLast_append_of_ne_nil hne

section Describes

variable {rq : rpc_dg_recvq_t} {next inorder : ℕ} {others : List ℕ}

section

variable (h : Describes rq next inorder others)

include h

theorem Describes.length : rq.head.length = inorder + others.length := by
  simpa using congrArg List.length h.fragnums

theorem Describes.toNat_queue_len : rq.queue_len.toNat = rq.head.length := by
  have hmax : RPC_C_DG_MAX_RECVQ_LEN.toNat = 96 := rfl
  have hroom := h.room
  have hlimit := h.limit_le
  rw [h.queue_len, h.length, BitVec.toNat_ofNat]
  omega

theorem Describes.toNat_inorder_len : rq.inorder_len.toNat = inorder := by
  have hmax : RPC_C_DG_MAX_RECVQ_LEN.toNat = 96 := rfl
  have hroom := h.room
  have hlimit := h.limit_le
  rw [h.inorder_len, BitVec.toNat_ofNat]
  omega

theorem Describes.head_number (hpos : 0 < inorder) : rq.head_fragnum = BitVec.ofNat 16 (next - inorder) := by
  obtain ⟨count, rfl⟩ := Nat.exists_eq_succ_of_ne_zero hpos.ne'
  exact h.head_fragnum _ (by simp [numbers, List.range'_succ])

theorem Describes.lower {limit : ℕ} (hpos : 0 < inorder)
    (hroom : inorder + others.length ≤ limit) (hle : limit ≤ RPC_C_DG_MAX_RECVQ_LEN.toNat) (hkeeps : KeepsWindow rq limit) :
    (∀ n ∈ others, next < n ∧ n < next + limit) ∧
      others.Pairwise fun a b => a < b ∧ a + inorder < next + limit := by
  have hmax : RPC_C_DG_MAX_RECVQ_LEN.toNat = 96 := rfl
  have hlimit := h.limit_le
  have hsorted : others.Pairwise (· < ·) := h.spread.imp fun hab => hab.1
  rcases eq_or_ne others [] with rfl | hne
  · simp
  have hfront : ∀ n ∈ others.dropLast, n + inorder < next + limit := by
    intro n hn
    have hmem : BitVec.ofNat 16 n ∈ rq.head.dropLast.map (·.hdr.fragnum) := by
      rw [List.map_dropLast, h.fragnums, ← List.map_dropLast, numbers_dropLast hne]
      exact List.mem_map_of_mem (List.mem_append_right _ hn)
    obtain ⟨rqe, hrqe, hfragnum⟩ := List.mem_map.mp hmem
    have hbelow := hkeeps.1 rqe hrqe
    obtain ⟨hnext, hwindow⟩ := h.above n (List.dropLast_subset _ hn)
    have hinorder := h.inorder_le
    rw [hfragnum, h.head_number hpos, ← BitVec.ofNat_add, serialLt_ofNat_iff (w := 15) (by omega) (by omega)] at hbelow
    omega
  have hlast : others.getLast hne < next + limit := by
    have hlastnum : rq.head.getLast?.map (·.hdr.fragnum) = some (BitVec.ofNat 16 (others.getLast hne)) := by
      rw [← List.getLast?_map, h.fragnums, List.getLast?_map, numbers, List.getLast?_append_of_ne_nil _ hne,
        List.getLast?_eq_some_getLast hne]
      rfl
    obtain ⟨rqe, hrqe, hfragnum⟩ := Option.map_eq_some_iff.mp hlastnum
    have hbelow := hkeeps.2 rqe hrqe
    obtain ⟨hnext, hwindow⟩ := h.above _ (List.getLast_mem hne)
    rwa [hfragnum, h.next_fragnum, ← BitVec.ofNat_add, serialLt_ofNat_iff (w := 15) (by omega) (by omega)] at hbelow
  refine ⟨fun n hn => ⟨(h.above n hn).1, ?_⟩, pairwise_and_dropLast hsorted hfront⟩
  by_cases heq : n = others.getLast hne
  · exact heq ▸ hlast
  · have := hfront n (List.mem_dropLast_of_mem_of_ne_getLast hn heq)
    omega

end

variable {rqe : rpc_dg_recvq_elt_t}

section

variable (h : Describes rq next inorder others)

include h

theorem Describes.note {around : Surroundings} (hkeeps : adjusts rq around rqe.frag_len → KeepsWindow rq (mbf_queue_len around)) :
    Describes (note_fragment rq around rqe) next inorder others := by
  by_cases hadjusts : adjusts rq around rqe.frag_len
  · have hle := mbf_queue_len_le around
    have hmax : RPC_C_DG_MAX_RECVQ_LEN.toNat = 96 := rfl
    obtain ⟨_, hlen, hpos⟩ := id hadjusts
    rw [h.toNat_inorder_len] at hpos
    rw [h.toNat_queue_len, h.length] at hlen
    have hlimit : (note_fragment rq around rqe).max_queue_len.toNat = mbf_queue_len around := by
      simp only [note_fragment, if_pos hadjusts, BitVec.toNat_ofNat]
      omega
    obtain ⟨habove, hspread⟩ := h.lower hpos hlen hle (hkeeps hadjusts)
    refine ⟨h.fragnums, h.headers, h.head_header, h.next_pos, h.inorder_le, h.next_fragnum, ?_, ?_, ?_, ?_, ?_, h.last_inorder,
      h.inorder_len, h.queue_len, h.head_fragnum, h.high_fragnum⟩
    · rwa [hlimit]
    · rwa [hlimit]
    · rwa [hlimit]
    · omega
    · rwa [hlimit]
  · have hlimit : (note_fragment rq around rqe).max_queue_len = rq.max_queue_len := if_neg hadjusts
    refine ⟨h.fragnums, h.headers, h.head_header, h.next_pos, h.inorder_le, h.next_fragnum, ?_, ?_, ?_, ?_, ?_, h.last_inorder,
      h.inorder_len, h.queue_len, h.head_fragnum, h.high_fragnum⟩
    · rw [hlimit]
      exact h.above
    · rw [hlimit]
      exact h.spread
    · rw [hlimit]
      exact h.room
    · rw [hlimit]
      exact h.limit_pos
    · rw [hlimit]
      exact h.limit_le

theorem Describes.place : inorder_place rq = inorder := by
  rw [inorder_place, h.last_inorder]
  by_cases hzero : inorder = 0
  · simp [hzero]
  · rw [if_neg hzero]
    dsimp only
    omega

theorem Describes.rest : Numbered (rq.head.drop inorder) others := by
  refine ⟨?_, fun rqe hmem => ?_⟩
  · rw [List.map_drop, h.fragnums, ← List.map_drop, numbers, List.drop_append_of_le_length (by simp)]
    simp
  · cases inorder with
    | zero => exact h.head_header rfl rqe hmem
    | succ count =>
      rw [← List.drop_tail] at hmem
      exact h.headers rqe (List.mem_of_mem_drop hmem)

theorem Describes.front :
    (rq.head.take inorder).map (·.hdr.fragnum) = (List.range' (next - inorder) inorder).map (BitVec.ofNat 16) := by
  rw [List.map_take, h.fragnums, ← List.map_take, numbers, List.take_append_of_le_length (by simp), List.take_of_length_le (by simp)]

end

theorem forall_mem_tail_insert {α : Type} {P : α → Prop} {l : List α} {place : ℕ} {a : α} (htail : ∀ b ∈ l.tail, P b)
    (hfirst : place = 0 → ∀ b ∈ l, P b) (ha : P a) : ∀ b ∈ (l.take place ++ a :: l.drop place).tail, P b := by
  intro b hb
  cases place with
  | zero => exact hfirst rfl b (by simpa using hb)
  | succ place =>
    cases l with
    | nil => simp at hb
    | cons c l =>
      simp only [List.take_succ_cons, List.drop_succ_cons, List.cons_append, List.tail_cons, List.mem_append,
        List.mem_cons] at hb
      obtain hb | rfl | hb := hb
      · exact htail b (List.mem_of_mem_take hb)
      · exact ha
      · exact htail b (List.mem_of_mem_drop hb)

theorem Describes.linkInOrder (h : Describes rq next inorder others) (htaken : rqe.taken = false)
    (hfragnum : rqe.hdr.fragnum = rq.next_fragnum) (hroom : inorder + others.length < rq.max_queue_len.toNat) :
    ∃ run, Describes (count_added (link_in_order rq rqe) rqe.hdr.fragnum) (next + run + 1) (inorder + run + 1)
      (others.drop run) := by
  have hmax : RPC_C_DG_MAX_RECVQ_LEN.toNat = 96 := rfl
  have hlimit := h.limit_le
  have hpos := h.next_pos
  have hle := h.inorder_le
  have hsorted : others.Pairwise (· < ·) := h.spread.imp fun hab => hab.1
  have hafter : rq.next_fragnum + 1 = BitVec.ofNat 16 (next + 1) := by
    rw [h.next_fragnum, BitVec.ofNat_add]
    rfl
  obtain ⟨run, hrun, hrunle, htake, hdrop⟩ := inorder_run_spec (n := next + 1) h.rest
    (fun n hn => ⟨(h.above n hn).1, by have := (h.above n hn).2; omega⟩) hsorted
  have hstart : next + run + 1 - (inorder + run + 1) = next - inorder := by omega
  have hlinked : link_in_order rq rqe =
      { rq with
        head := rq.head.take inorder ++ rqe :: rq.head.drop inorder
        head_fragnum := if rq.last_inorder = none then rqe.hdr.fragnum else rq.head_fragnum
        inorder_len := rq.inorder_len + BitVec.ofNat 8 (run + 1)
        last_inorder := some (inorder + run)
        next_fragnum := rq.next_fragnum + BitVec.ofNat 16 (run + 1) } := by
    simp only [link_in_order, h.place, hafter, hrun]
  rw [hlinked]
  refine ⟨run, ?_, ?_, ?_, Nat.succ_pos _, by omega, ?_, ?_, ?_, ?_, h.limit_pos, h.limit_le, ?_, ?_, ?_, ?_, ?_⟩
  · dsimp only [count_added]
    rw [List.map_append, List.map_cons, h.front, h.rest.fragnums, hfragnum, h.next_fragnum, numbers, hstart,
      show inorder + run + 1 = inorder + (run + 1) by omega, ← List.range'_append_1, List.range'_succ,
      show next - inorder + inorder = next by omega, ← htake]
    simp
  · exact forall_mem_tail_insert h.headers h.head_header htaken
  · intro hzero
    omega
  · dsimp only [count_added]
    rw [h.next_fragnum, ← BitVec.ofNat_add]
    rfl
  · intro n hn
    have := (h.above n (List.mem_of_mem_drop hn)).2
    have := hdrop n hn
    dsimp only [count_added]
    omega
  · refine (h.spread.sublist (List.drop_sublist run others)).imp fun hab => ⟨hab.1, ?_⟩
    dsimp only [count_added]
    omega
  · rw [List.length_drop]
    dsimp only [count_added]
    omega
  · exact (if_neg (Nat.succ_ne_zero _)).symm
  · dsimp only [count_added]
    rw [h.inorder_len, ← BitVec.ofNat_add]
    rfl
  · dsimp only [count_added]
    rw [h.queue_len, List.length_drop, show inorder + run + 1 + (others.length - run) = inorder + others.length + 1 by omega,
      BitVec.ofNat_add (inorder + others.length) 1]
    rfl
  · intro n hn
    obtain rfl : next - inorder = n := by
      simpa [numbers, hstart, List.range'_succ] using hn
    dsimp only [count_added]
    rw [h.last_inorder]
    by_cases hzero : inorder = 0
    · rw [if_pos hzero, if_pos rfl, hfragnum, h.next_fragnum, hzero]
      rfl
    · rw [if_neg hzero, if_neg (Option.some_ne_none _), h.head_number (Nat.pos_of_ne_zero hzero)]
  · dsimp only [count_added]
    rw [h.high_fragnum, hfragnum, h.next_fragnum]
    rcases eq_or_ne others [] with rfl | hne
    · obtain rfl : run = 0 := by simpa using hrunle
      rw [if_pos]
      · simp
      · rw [List.getLast?_nil, Option.getD_none, serialLt_ofNat_iff (w := 15) (by omega) (by omega)]
        omega
    · have hlast := h.above _ (List.getLast_mem hne)
      rw [List.getLast?_eq_some_getLast hne, Option.getD_some, if_neg]
      · rw [List.getLast?_drop]
        by_cases hall : others.length ≤ run
        · have hwhole : others = List.range' (next + 1) run := by rw [← htake, List.take_of_length_le hall]
          have hlastnum : others.getLast? = some (next + run) := by
            have hrunpos : run ≠ 0 := by
              rintro rfl
              exact hne hwhole
            rw [hwhole, List.getLast?_range', if_neg hrunpos]
            congr 1
            omega
          rw [List.getLast?_eq_some_getLast hne] at hlastnum
          rw [if_pos hall, Option.some.inj hlastnum]
          rfl
        · rw [if_neg hall, List.getLast?_eq_some_getLast hne]
          rfl
      · rw [serialLt_ofNat_iff (w := 15) (by omega) (by omega)]
        omega

theorem length_of_spread {l : List ℕ} {low high inorder : ℕ} (hspread : l.Pairwise fun a b => a < b ∧ a + inorder < high)
    (hlow : ∀ a ∈ l, low < a) : l.length ≤ 1 ∨ low + l.length + inorder ≤ high := by
  induction l generalizing low with
  | nil => exact .inl (Nat.zero_le _)
  | cons a l ih =>
    obtain ⟨hfirst, hrest⟩ := List.pairwise_cons.mp hspread
    have ha := hlow a List.mem_cons_self
    have hrise : ∀ b ∈ l, low + 1 < b := fun b hb => by
      have := (hfirst b hb).1
      omega
    obtain hone | hmany := ih hrest hrise
    · cases l with
      | nil => exact .inl le_rfl
      | cons b l =>
        have := (hfirst b List.mem_cons_self).2
        simp only [List.length_cons] at hone ⊢
        omega
    · simp only [List.length_cons]
      omega

theorem length_of_rising {l : List ℕ} {low high : ℕ} (hsorted : l.Pairwise (· < ·)) (hwithin : ∀ a ∈ l, low < a ∧ a < high) :
    l.length = 0 ∨ low + l.length < high := by
  induction l generalizing low with
  | nil => exact .inl rfl
  | cons a l ih =>
    obtain ⟨hfirst, hrest⟩ := List.pairwise_cons.mp hsorted
    have ha := hwithin a List.mem_cons_self
    have hrise : ∀ b ∈ l, low + 1 < b ∧ b < high := fun b hb => by
      have := hfirst b hb
      have := hwithin b (List.mem_cons_of_mem _ hb)
      omega
    have hlonger := ih hrest hrise
    simp only [List.length_cons]
    omega

variable (h : Describes rq next inorder others)

include h

theorem Describes.linkOutOfOrder (htaken : rqe.taken = false)
    {n : ℕ} (hfragnum : rqe.hdr.fragnum = BitVec.ofNat 16 n) (hafter : next < n) (hwindow : n + inorder < next + rq.max_queue_len.toNat)
    (hnew : (rq.head[out_of_order_place rq rqe.hdr.fragnum]?).bind (·.fragnum) ≠ some rqe.hdr.fragnum) :
    ∃ place, Describes (count_added (link_out_of_order rq rqe) rqe.hdr.fragnum) next inorder
      (others.take place ++ n :: others.drop place) := by
  have hmax : RPC_C_DG_MAX_RECVQ_LEN.toNat = 96 := rfl
  have hlimit := h.limit_le
  have hpos := h.next_pos
  have hsorted : others.Pairwise (· < ·) := h.spread.imp fun hab => hab.1
  obtain ⟨place, hplace, hplacele, hbelow, habove⟩ := scan_below_spec (n := n) h.rest
    (fun a ha => by have := h.above a ha; omega) hsorted
  have hwhole : out_of_order_place rq rqe.hdr.fragnum = inorder + place := by
    rw [out_of_order_place, h.place, hfragnum, hplace]
  have hfirst : ∀ a ∈ (others.drop place).head?, n ≠ a := by
    rintro a ha rfl
    rw [List.head?_drop] at ha
    have hmapped : ((rq.head.drop inorder)[place]?).map (·.hdr.fragnum) = some (BitVec.ofNat 16 n) := by
      rw [← List.getElem?_map, h.rest.fragnums, List.getElem?_map, ha]
      rfl
    obtain ⟨found, hfound, hnumber⟩ := Option.map_eq_some_iff.mp hmapped
    have hheader := h.rest.headers found (List.mem_of_getElem? hfound)
    rw [List.getElem?_drop] at hfound
    rw [hwhole, hfound, hfragnum] at hnew
    exact hnew (by simpa [hnumber] using fragnum_eq hheader)
  have hstrict : ∀ a ∈ others.drop place, n < a := by
    have hrest : (others.drop place).Pairwise (· < ·) := hsorted.sublist (List.drop_sublist _ _)
    cases hcases : others.drop place with
    | nil => simp
    | cons first rest =>
      rw [hcases] at hfirst habove hrest
      have hne := hfirst first rfl
      have hle := habove first List.mem_cons_self
      intro a ha
      obtain rfl | ha := List.mem_cons.mp ha
      · omega
      · have := (List.pairwise_cons.mp hrest).1 a ha
        omega
  have hlinked : link_out_of_order rq rqe =
      { rq with
        head := rq.head.take (inorder + place) ++ rqe :: rq.head.drop (inorder + place)
        head_fragnum := if inorder + place = 0 then rqe.hdr.fragnum else rq.head_fragnum } := by
    simp only [link_out_of_order, hwhole]
  have hspread : (others.take place ++ n :: others.drop place).Pairwise fun a b =>
      a < b ∧ a + inorder < next + rq.max_queue_len.toNat := by
    refine List.pairwise_append.mpr ⟨h.spread.sublist (List.take_sublist _ _), List.pairwise_cons.mpr
      ⟨fun b hb => ⟨hstrict b hb, hwindow⟩, h.spread.sublist (List.drop_sublist _ _)⟩, fun a ha b hb => ?_⟩
    have := hbelow a ha
    obtain rfl | hb := List.mem_cons.mp hb
    · omega
    · have := hstrict b hb
      omega
  have habove' : ∀ a ∈ others.take place ++ n :: others.drop place, next < a ∧ a < next + rq.max_queue_len.toNat := by
    intro a ha
    simp only [List.mem_append, List.mem_cons] at ha
    obtain ha | rfl | ha := ha
    · exact h.above a (List.mem_of_mem_take ha)
    · omega
    · exact h.above a (List.mem_of_mem_drop ha)
  have hlength : (others.take place ++ n :: others.drop place).length = others.length + 1 := by
    simp only [List.length_append, List.length_cons, List.length_take, List.length_drop]
    omega
  rw [hlinked]
  refine ⟨place, ?_, ?_, ?_, h.next_pos, h.inorder_le, h.next_fragnum, habove', hspread, ?_, h.limit_pos, h.limit_le,
    h.last_inorder, h.inorder_len, ?_, ?_, ?_⟩
  · dsimp only [count_added]
    have hfront : ((rq.head.drop inorder).take place).map (·.hdr.fragnum) = (others.take place).map (BitVec.ofNat 16) := by
      rw [List.map_take, h.rest.fragnums, List.map_take]
    have hback : ((rq.head.drop inorder).drop place).map (·.hdr.fragnum) = (others.drop place).map (BitVec.ofNat 16) := by
      rw [List.map_drop, h.rest.fragnums, List.map_drop]
    rw [List.take_add, ← List.drop_drop, List.map_append, List.map_append, List.map_cons, h.front, hfront, hback, hfragnum, numbers]
    simp
  · exact forall_mem_tail_insert h.headers (fun hzero => h.head_header (by omega)) htaken
  · intro hzero b hb
    dsimp only [count_added] at hb
    simp only [List.mem_append, List.mem_cons] at hb
    obtain hb | rfl | hb := hb
    · exact h.head_header hzero b (List.mem_of_mem_take hb)
    · exact htaken
    · exact h.head_header hzero b (List.mem_of_mem_drop hb)
  · have := length_of_spread hspread fun a ha => (habove' a ha).1
    dsimp only [count_added]
    omega
  · dsimp only [count_added]
    rw [h.queue_len, hlength, ← Nat.add_assoc, BitVec.ofNat_add (inorder + others.length) 1]
    rfl
  · intro a ha
    dsimp only [count_added]
    by_cases hzero : inorder + place = 0
    · obtain ⟨rfl, rfl⟩ : inorder = 0 ∧ place = 0 := by omega
      obtain rfl : n = a := by simpa [numbers] using ha
      rw [if_pos rfl, hfragnum]
    · rw [if_neg hzero]
      refine h.head_fragnum a ?_
      rcases Nat.eq_zero_or_pos inorder with rfl | hinorder
      · obtain ⟨count, rfl⟩ := Nat.exists_eq_succ_of_ne_zero (show place ≠ 0 by omega)
        cases others with
        | nil => simp at hplacele
        | cons first rest => simpa [numbers] using ha
      · obtain ⟨count, rfl⟩ := Nat.exists_eq_succ_of_ne_zero hinorder.ne'
        simpa [numbers, List.range'_succ] using ha
  · dsimp only [count_added]
    rw [h.high_fragnum, hfragnum, List.getLast?_append_cons]
    rcases eq_or_ne (others.drop place) [] with hnil | hne
    · have hend : others.length ≤ place := by simpa using hnil
      rw [hnil, if_pos]
      · rfl
      · rcases eq_or_ne others [] with rfl | hsome
        · rw [List.getLast?_nil, Option.getD_none, serialLt_ofNat_iff (w := 15) (by omega) (by omega)]
          omega
        · have hlast := h.above _ (List.getLast_mem hsome)
          have hlt := hbelow _ (by rw [List.take_of_length_le hend]; exact List.getLast_mem hsome)
          rw [List.getLast?_eq_some_getLast hsome, Option.getD_some, serialLt_ofNat_iff (w := 15) (by omega) (by omega)]
          exact hlt
    · have hshort : ¬ others.length ≤ place := by simpa using hne
      have hsome : others ≠ [] := by
        rintro rfl
        exact hne List.drop_nil
      have hlast := List.getLast?_drop (l := others) (i := place)
      rw [if_neg hshort, List.getLast?_eq_some_getLast hsome, List.getLast?_eq_some_getLast hne] at hlast
      have hlt := hstrict _ (List.getLast_mem hne)
      have hbound := h.above _ (List.getLast_mem hsome)
      rw [Option.some.inj hlast] at hlt
      rw [List.getLast?_cons_of_ne_nil hne, List.getLast?_eq_some_getLast hne, List.getLast?_eq_some_getLast hsome, Option.getD_some,
        Option.some.inj hlast, if_neg]
      · rfl
      · rw [serialLt_ofNat_iff (w := 15) (by omega) (by omega)]
        omega

theorem Describes.number_after {fragnum : BitVec 16} (hne : fragnum ≠ rq.next_fragnum)
    (hnot : ¬ serialLt fragnum rq.next_fragnum) :
    ∃ distance, fragnum = BitVec.ofNat 16 (next + distance) ∧ 0 < distance ∧ distance < 2 ^ 15 := by
  refine ⟨(fragnum - rq.next_fragnum).toNat, ?_, ?_, ?_⟩
  · rw [BitVec.ofNat_add, BitVec.ofNat_toNat, BitVec.setWidth_eq, ← h.next_fragnum, BitVec.add_comm, BitVec.sub_add_cancel]
  · rw [Nat.pos_iff_ne_zero]
    intro hzero
    refine hne (BitVec.eq_of_toNat_eq ?_)
    rw [BitVec.toNat_sub] at hzero
    have := fragnum.isLt
    have := rq.next_fragnum.isLt
    omega
  · rw [serialLt, BitVec.toInt_eq_toNat_cond] at hnot
    split_ifs at hnot <;> omega

theorem Describes.window {distance : ℕ} (hdistance : distance < 2 ^ 15)
    (hnear : ¬ too_far rq (BitVec.ofNat 16 (next + distance))) :
    next + distance + inorder < next + rq.max_queue_len.toNat := by
  have hmax : RPC_C_DG_MAX_RECVQ_LEN.toNat = 96 := rfl
  have hlimit := h.limit_le
  have hroom := h.room
  have hle := h.inorder_le
  have hofNat : rq.max_queue_len = BitVec.ofNat 16 rq.max_queue_len.toNat := by simp
  rw [too_far, not_or] at hnear
  obtain ⟨hhead, hnext⟩ := hnear
  rw [h.next_fragnum, hofNat, ← BitVec.ofNat_add, serialLe_ofNat_iff (w := 15) (by omega) (by omega)] at hnext
  rcases Nat.eq_zero_or_pos inorder with rfl | hpos
  · omega
  · have hne : rq.head ≠ [] := by
      rw [← List.length_pos_iff_ne_nil, h.length]
      omega
    have hfirst : serialLt rq.head_fragnum rq.next_fragnum := by
      rw [h.head_number hpos, h.next_fragnum, serialLt_ofNat_iff (w := 15) (by omega) (by omega)]
      omega
    have hfar : ¬ serialLe (rq.head_fragnum + rq.max_queue_len) (BitVec.ofNat 16 (next + distance)) :=
      fun hle => hhead ⟨hne, hfirst, hle⟩
    rw [h.head_number hpos, hofNat, ← BitVec.ofNat_add, serialLe_ofNat_iff (w := 15) (by omega) (by omega)] at hfar
    omega

theorem Describes.link {around : Surroundings} {rq' : rpc_dg_recvq_t}
    (htaken : rqe.taken = false) (hlink : link rq around rqe = some rq') :
    ∃ next inorder others, Describes (count_added rq' rqe.hdr.fragnum) next inorder others := by
  have hmax : RPC_C_DG_MAX_RECVQ_LEN.toNat = 96 := rfl
  have hlimit := h.limit_le
  have hroom := h.room
  rw [dg.link] at hlink
  split_ifs at hlink with hunset hnext hfull hration hold hration hfar hdup
  · obtain rfl := Option.some.inj hlink
    have hlen : inorder + others.length ≠ rq.max_queue_len.toNat := by
      intro hlen
      refine hfull (BitVec.eq_of_toNat_eq ?_)
      rw [BitVec.toNat_setWidth, h.toNat_queue_len, h.length, Nat.mod_eq_of_lt (by omega), hlen]
    obtain ⟨run, hrun⟩ := h.linkInOrder htaken hnext (by omega)
    exact ⟨_, _, _, hrun⟩
  · obtain rfl := Option.some.inj hlink
    obtain ⟨distance, hfragnum, hpos, hlt⟩ := h.number_after hnext hold
    obtain ⟨place, hplace⟩ := h.linkOutOfOrder htaken hfragnum (by omega) (h.window hlt (hfragnum ▸ hfar)) hdup
    exact ⟨_, _, _, hplace⟩

theorem Describes.takeHead {rest : List rpc_dg_recvq_elt_t}
    (hinorder : 0 < inorder) (hhead : rq.head.map (·.hdr.fragnum) = rqe.hdr.fragnum :: rest.map (·.hdr.fragnum))
    (htail : rq.head.tail = rest) : ∃ inorder, Describes (take_head rq rqe rest) next inorder others := by
  have hle := h.inorder_le
  have hroom := h.room
  have hnumbers := hhead.symm.trans h.fragnums
  have hheaders := h.headers
  rw [htail] at hheaders
  rw [take_head]
  split_ifs with hmore
  · refine ⟨inorder, hnumbers, hheaders, fun hzero => absurd hzero hinorder.ne', h.next_pos, h.inorder_le, h.next_fragnum,
      h.above, h.spread, h.room, h.limit_pos, h.limit_le, h.last_inorder, h.inorder_len, h.queue_len, h.head_fragnum,
      h.high_fragnum⟩
  · obtain ⟨count, rfl⟩ := Nat.exists_eq_succ_of_ne_zero hinorder.ne'
    have hstart : next - count.succ + 1 = next - count := by omega
    have hrest : rest.map (·.hdr.fragnum) = (numbers next count others).map (BitVec.ofNat 16) := by
      rw [numbers, List.range'_succ, hstart, List.cons_append, List.map_cons] at hnumbers
      exact (List.cons.inj hnumbers).2
    refine ⟨count, hrest, fun b hb => hheaders b (List.mem_of_mem_tail hb), fun _ => hheaders, h.next_pos, by omega, h.next_fragnum,
      h.above, h.spread.imp fun hab => ⟨hab.1, by dsimp only; omega⟩, by dsimp only; omega, h.limit_pos, h.limit_le, ?_, ?_, ?_, ?_,
      h.high_fragnum⟩
    · dsimp only
      rw [h.last_inorder, if_neg (Nat.succ_ne_zero _)]
      simp
    · dsimp only
      rw [h.inorder_len, BitVec.ofNat_add count 1]
      exact BitVec.add_sub_cancel _ _
    · dsimp only
      rw [h.queue_len, show count.succ + others.length = count + others.length + 1 by omega, BitVec.ofNat_add _ 1]
      exact BitVec.add_sub_cancel _ _
    · intro n hn
      dsimp only
      cases rest with
      | nil =>
        have hnil : numbers next count others = [] := by simpa using hrest.symm
        rw [hnil] at hn
        simp at hn
      | cons first rest =>
        have hfirst := congrArg List.head? hrest
        rw [List.map_cons, List.head?_cons, List.head?_map, hn] at hfirst
        rw [List.head?_cons, Option.bind_some, fragnum_eq (hheaders first List.mem_cons_self), Option.getD_some]
        exact Option.some.inj hfirst

end Describes

theorem recv_ck_hdr {rqe checked : rpc_dg_recvq_elt_t} {ck : RecvCk} (hck : recv_ck rqe ck = some checked) :
    checked.hdr = rqe.hdr := by
  by_cases htaken : rqe.hdrp = none
  · obtain rfl : rqe = checked := by simpa [recv_ck, htaken] using hck
    rfl
  · cases ck with
    | unchecked =>
      obtain rfl : rqe = checked := by simpa [recv_ck, htaken] using hck
      rfl
    | refused => simp [recv_ck, htaken] at hck
    | good kept =>
      obtain rfl : { rqe with more_data := min rqe.more_data kept } = checked := by simpa [recv_ck, htaken] using hck
      rfl

/-- A fragment that comes while the limit to the queue is lowered only when that keeps the window. -/
def Keeps (rq : rpc_dg_recvq_t) : RecvqEvent → Prop
  | .insert around _ frag_len _ => adjusts rq around frag_len → KeepsWindow rq (mbf_queue_len around)
  | _ => True

instance (rq : rpc_dg_recvq_t) (event : RecvqEvent) : Decidable (Keeps rq event) := by
  cases event <;> unfold Keeps <;> infer_instance

def Described (rq : rpc_dg_recvq_t) : Prop := ∃ next inorder others, Describes rq next inorder others

theorem recvq_init_described (size : BitVec 32) : Described { rpc__dg_recvq_init with high_rcv_frag_size := size } := by
  have hlimit : 0 < RPC_C_DG_MAX_RECVQ_LEN.toNat := by decide
  exact ⟨2 ^ 16, 0, [], rfl, by simp [rpc__dg_recvq_init], by simp [rpc__dg_recvq_init], by decide, Nat.zero_le _, rfl, by simp,
    .nil, Nat.zero_le _, hlimit, le_rfl, rfl, rfl, rfl, by simp [numbers], rfl⟩

theorem recvq_step_described {rq rq' : rpc_dg_recvq_t} {event : RecvqEvent} (h : Described rq) (hkeeps : Keeps rq event)
    (hstep : recvqSystem.step rq event = some rq') : Described rq' := by
  obtain ⟨next, inorder, others, h⟩ := h
  cases event with
  | insert around hdr frag_len more_data =>
    obtain rfl := Option.some.inj hstep
    generalize hrqe : (⟨hdr, false, frag_len, more_data⟩ : rpc_dg_recvq_elt_t) = rqe at *
    have htaken : rqe.taken = false := by rw [← hrqe]
    have hnoted : Describes (note_fragment rq around rqe) next inorder others := h.note (hrqe ▸ hkeeps)
    rw [rpc__dg_call_recvq_insert]
    dsimp only
    cases hlink : link (note_fragment rq around rqe) around rqe with
    | none => exact ⟨next, inorder, others, hnoted⟩
    | some linked => exact hnoted.link htaken hlink
  | way_validated =>
    obtain rfl := Option.some.inj hstep
    exact ⟨next, inorder, others, h.fragnums, h.headers, h.head_header, h.next_pos, h.inorder_le, h.next_fragnum, h.above, h.spread,
      h.room, h.limit_pos, h.limit_le, h.last_inorder, h.inorder_len, h.queue_len, h.head_fragnum, h.high_fragnum⟩
  | receive ck =>
    obtain ⟨received, hreceived, rfl⟩ := Option.map_eq_some_iff.mp hstep
    cases hlast : rq.last_inorder with
    | none => simp [rpc__dg_call_receive_int, hlast] at hreceived
    | some last =>
      have hinorder : 0 < inorder := by
        rw [Nat.pos_iff_ne_zero]
        intro hzero
        rw [h.last_inorder, if_pos hzero] at hlast
        simp at hlast
      cases hhead : rq.head with
      | nil => simp [rpc__dg_call_receive_int, hlast, hhead] at hreceived
      | cons rqe rest =>
        cases hck : recv_ck rqe ck with
        | none =>
          simp only [rpc__dg_call_receive_int, hlast, hhead, hck, Option.some.injEq] at hreceived
          subst hreceived
          exact ⟨next, inorder, others, h⟩
        | some checked =>
          simp only [rpc__dg_call_receive_int, hlast, hhead, hck, Option.some.injEq] at hreceived
          subst hreceived
          have hfragnums : rq.head.map (·.hdr.fragnum) = checked.hdr.fragnum :: rest.map (·.hdr.fragnum) := by
            rw [hhead, recv_ck_hdr hck]
            rfl
          obtain ⟨count, hcount⟩ := h.takeHead hinorder hfragnums (by rw [hhead]; rfl)
          exact ⟨next, count, others, hcount⟩

/-- A receive queue is sorted by its fragments' numbers, which differ; its first elements follow one another up to the next
awaited fragment and the others come behind that one; its fields say where the former end, how many elements there are of
either sort and what the first and the last number are; and when it is full, something in it is in order. -/
structure rpc_dg_recvq_t.Sound (rq : rpc_dg_recvq_t) : Prop where
  sorted : rq.head.Pairwise fun a b => serialLt a.hdr.fragnum b.hdr.fragnum
  inorder : ∀ place, place < rq.inorder_len.toNat →
    (rq.head[place]?).map (·.hdr.fragnum) = some (rq.next_fragnum - BitVec.ofNat 16 (rq.inorder_len.toNat - place))
  gap : ∀ rqe ∈ rq.head.drop rq.inorder_len.toNat, serialLt rq.next_fragnum rqe.hdr.fragnum
  last_inorder : rq.last_inorder = if rq.inorder_len.toNat = 0 then none else some (rq.inorder_len.toNat - 1)
  queue_len : rq.queue_len.toNat = rq.head.length
  head_fragnum : ∀ rqe ∈ rq.head.head?, rq.head_fragnum = rqe.hdr.fragnum
  high_fragnum : rq.high_fragnum = (rq.head.getLast?.map (·.hdr.fragnum)).getD (rq.next_fragnum - 1)
  progress : rq.max_queue_len.toNat ≤ rq.queue_len.toNat → 0 < rq.inorder_len.toNat

theorem Describes.sound {rq : rpc_dg_recvq_t} {next inorder : ℕ} {others : List ℕ} (h : Describes rq next inorder others) :
    rq.Sound := by
  have hmax : RPC_C_DG_MAX_RECVQ_LEN.toNat = 96 := rfl
  have hlimit := h.limit_le
  have hpos := h.limit_pos
  have hroom := h.room
  have hle := h.inorder_le
  have hsorted : (numbers next inorder others).Pairwise (· < ·) := by
    refine List.pairwise_append.mpr ⟨List.pairwise_lt_range', h.spread.imp fun hab => hab.1, fun a ha b hb => ?_⟩
    have := (h.above b hb).1
    have := List.mem_range'_1.mp ha
    omega
  have hwithin : ∀ a ∈ numbers next inorder others, next < a + 2 ^ 14 ∧ a < next + 2 ^ 14 := by
    intro a ha
    obtain ha | ha := List.mem_append.mp ha
    · have := List.mem_range'_1.mp ha
      omega
    · have := h.above a ha
      omega
  refine ⟨?_, ?_, ?_, ?_, h.toNat_queue_len, ?_, ?_, ?_⟩
  · rw [← List.pairwise_map (f := fun rqe : rpc_dg_recvq_elt_t => rqe.hdr.fragnum) (R := serialLt), h.fragnums, List.pairwise_map]
    refine hsorted.imp_of_mem fun ha hb hlt => ?_
    have := hwithin _ ha
    have := hwithin _ hb
    rw [serialLt_ofNat_iff (w := 15) (by omega) (by omega)]
    exact hlt
  · rw [h.toNat_inorder_len]
    intro place hplace
    rw [← List.getElem?_map, h.fragnums, List.getElem?_map, numbers, List.getElem?_append_left (by simpa using hplace),
      List.getElem?_range' hplace, h.next_fragnum, Option.map_some, ofNat_sub_ofNat (by omega),
      show next - inorder + 1 * place = next - (inorder - place) by omega]
  · rw [h.toNat_inorder_len]
    intro rqe hmem
    have hnumber : rqe.hdr.fragnum ∈ others.map (BitVec.ofNat 16) := by
      rw [← h.rest.fragnums]
      exact List.mem_map_of_mem hmem
    obtain ⟨n, hn, hfragnum⟩ := List.mem_map.mp hnumber
    have := h.above n hn
    rw [← hfragnum, h.next_fragnum, serialLt_ofNat_iff (w := 15) (by omega) (by omega)]
    exact this.1
  · rw [h.toNat_inorder_len]
    exact h.last_inorder
  · intro rqe hhead
    have hfirst := congrArg List.head? h.fragnums
    rw [List.head?_map, hhead, List.head?_map] at hfirst
    obtain ⟨n, hn, hfragnum⟩ := Option.map_eq_some_iff.mp hfirst.symm
    rw [h.head_fragnum n hn, hfragnum]
  · rw [← List.getLast?_map, h.fragnums, List.getLast?_map, h.high_fragnum, h.next_fragnum]
    rcases eq_or_ne others [] with rfl | hne
    · have hnext := h.next_pos
      have hbefore : BitVec.ofNat 16 next - 1 = BitVec.ofNat 16 (next - 1) := ofNat_sub_ofNat hnext
      rw [numbers, List.append_nil, List.getLast?_range', hbefore]
      split_ifs with hzero
      · rfl
      · simp only [List.getLast?_nil, Option.getD_none, Option.map_some, Option.getD_some]
        congr 1
        omega
    · rw [numbers, List.getLast?_append_of_ne_nil _ hne, List.getLast?_eq_some_getLast hne]
      rfl
  · rw [h.toNat_queue_len, h.length, h.toNat_inorder_len]
    intro hfull
    by_contra hzero
    obtain rfl : inorder = 0 := by omega
    have := length_of_rising (h.spread.imp fun hab => hab.1) h.above
    omega

theorem recvq_described {rq : rpc_dg_recvq_t} (hreach : (recvqSystem.restrict Keeps).Reachable rq) : Described rq := by
  refine hreach.invariant (P := Described) ?_ fun rq event rq' h hstep => ?_
  · rintro rq ⟨size, rfl⟩
    exact recvq_init_described size
  · obtain ⟨hkeeps, hstep⟩ := System.restrict_step hstep
    exact recvq_step_described h hkeeps hstep

/-- A receive queue is sound in every run in which the limit to it is lowered only when that keeps the window. -/
theorem recvq_sound {rq : rpc_dg_recvq_t} (hreach : (recvqSystem.restrict Keeps).Reachable rq) : rq.Sound := by
  obtain ⟨next, inorder, others, h⟩ := recvq_described hreach
  exact h.sound

/-- A fragment of a call with two packet buffers reserved for each. -/
def fragmentOfTwo (fragnum : BitVec 16) (frag_len : BitVec 32) : RecvqEvent :=
  .insert ⟨true, 2, 2, false, false⟩ ⟨fragnum, fragnum, true, false, true⟩ frag_len 0

def overtaken : List RecvqEvent := [fragmentOfTwo 0 1024, fragmentOfTwo 2 1024, fragmentOfTwo 1 4000]

theorem recvq_sound_overtaken : ∃ rq, ((recvqSystem.restrict Keeps).exec rpc__dg_recvq_init overtaken = some rq) ∧ rq.Sound := by
  obtain ⟨rq, hrun⟩ : ∃ rq, (recvqSystem.restrict Keeps).exec rpc__dg_recvq_init overtaken = some rq :=
    Option.isSome_iff_exists.mp (by decide +kernel)
  exact ⟨rq, hrun, recvq_sound (System.reachable_of_exec overtaken ⟨_, rfl⟩ hrun)⟩

def outrun : List RecvqEvent :=
  fragmentOfTwo 0 1024 :: (List.range 47).map (fun i => fragmentOfTwo (BitVec.ofNat 16 (49 + i)) 1024) ++
    [fragmentOfTwo 2 4000, .receive .unchecked]

/-- A receive queue gets full with nothing in order in it. -/
theorem recvq_stuck : ∃ rq, recvqSystem.Reachable rq ∧ ¬ rq.Sound := by
  obtain ⟨rq, hreach, hfull⟩ := recvqSystem.exists_reachable_of_exec (s := rpc__dg_recvq_init) outrun
    (P := fun rq => rq.max_queue_len.toNat ≤ rq.queue_len.toNat && rq.inorder_len.toNat = 0) ⟨_, rfl⟩ (by decide +kernel)
  refine ⟨rq, hreach, fun h => ?_⟩
  rw [Bool.and_eq_true, decide_eq_true_eq, decide_eq_true_eq] at hfull
  exact absurd (h.progress hfull.1) (by omega)

end dce.rpc.dg
