import Dce.Cds.BtreeSplit

open lib

namespace dce.cds.btree

/-- A bucket in its own size, as those of the tree are. -/
structure node_header_t.Valid (host : Host) (bkt : node_header_t) (recs : List (List Byte)) : Prop where
  holds : bkt.Holds host recs
  fits : host.needs recs ≤ bkt.node_blocks * BLOCK_SIZE
  node_space_eq : bkt.node_space = bkt.node_blocks * BLOCK_SIZE - host.needs recs

/-- What a full bucket with these records is expanded to when one record is inserted or grows. -/
inductive Expanded (host : Host) (bkt : node_header_t) : List (List Byte) → node_header_t → Prop
  /-- By `insert_data`. -/
  | insert_data (left right : List (List Byte)) (key_p : entry_key_t host) (set_p : DBSet_t host) {space : ℕ}
      {expand : node_header_t} (blocks : bkt.node_blocks = DATA_BUCKET_BLOCKS)
      (full : insert_record host bkt left.length key_p set_p = .error space)
      (done : insert_record host (extended bkt (host.ALIGN_LEN (key_p.image.length + set_p.image.length + sizeof_rec_descriptor_t)))
        left.length key_p set_p = .ok expand) : Expanded host bkt (left ++ right) expand
  /-- By `replace_data`. -/
  | replace_data (left right : List (List Byte)) (key_p : entry_key_t host) (set_p new_data_p : DBSet_t host) {space : ℕ}
      {expand : node_header_t} (blocks : bkt.node_blocks = DATA_BUCKET_BLOCKS)
      (full : replace_record host bkt left.length new_data_p = .error space)
      (done : replace_record host (extended bkt (host.ALIGN_LEN (key_p.image.length + new_data_p.image.length))) left.length
        new_data_p = .ok expand) : Expanded host bkt (left ++ (key_p.image ++ set_p.image) :: right) expand
  /-- By `update_index`, with one key. -/
  | update_index (left right : List (List Byte)) (src_p : List Byte) (down_p : Address) {space : ℕ}
      {expand : node_header_t} (blocks : bkt.node_blocks = INDEX_BUCKET_BLOCKS) (sized : host.sizeof_byte_p ≤ src_p.length)
      (full : insert_index host bkt left.length src_p down_p = .error space)
      (done : insert_index host (extended bkt (host.ALIGN_SIZE + sizeof_rec_descriptor_t + src_p.length)) left.length src_p
        down_p = .ok expand) : Expanded host bkt (left ++ right) expand

/-- The condition under which the split points are valid, for the records of an expanded bucket and a bucket size. Either
the two halves fit with the padding behind their records; or the records that stay below the size from both ends, the
padding left out, are all, and the two parts fit where a filling from both ends in turn cuts; or they are not all, and the
thirds fit. -/
def Divisible (host : Host) (expand : node_header_t) (size : ℕ) : Prop :=
  let max_size := size - host.header
  let cut := meeting max_size (costs expand.records)
  halves_fit expand max_size ∨
    Covered max_size expand.records ∧ expand.PartFits host size 0 cut ∧ expand.PartFits host size cut expand.node_count ∨
    ¬ Covered max_size expand.records ∧ thirds_fit expand max_size

section Valid

variable {host : Host} {expand : node_header_t} {recs : List (List Byte)} {size : ℕ} (h : expand.Holds host recs)
include h

theorem node_header_t.Holds.offset_le_finish {i j : ℕ} (hij : i < j) (hj : j ≤ recs.length) :
    (expand.dsc i).rec_offset ≤ expand.finish (j - 1) := by
  rw [finish_part h hij hj]
  exact Nat.le_add_right _ _

theorem node_header_t.Holds.finish_le_offset {j : ℕ} (hpos : 0 < j) (hj : j < recs.length) :
    expand.finish (j - 1) ≤ (expand.dsc j).rec_offset := by
  have hspan := span_le_padded host.ALIGN_SIZE_pos (lengths (recs.take j))
  have hfirst := offset_part h hpos hj.le
  simp only [List.take_zero, lengths, List.map_nil, padded_nil, Nat.add_zero] at hfirst
  have hpart : part recs 0 j = recs.take j := rfl
  rw [finish_part h hpos hj.le, offset_part h (Nat.lt_succ_self j) hj, hfirst, hpart]
  exact Nat.add_le_add_left hspan _

theorem node_header_t.Holds.partFits_of_lt {i j last : ℕ} (hij : i < j) (hj : j ≤ recs.length)
    (hlast : expand.finish (j - 1) ≤ last)
    (hlt : (j - i) * sizeof_rec_descriptor_t + last - (expand.dsc i).rec_offset < size - host.header) :
    expand.PartFits host size i j := by
  have hle := h.offset_le_finish hij hj
  rw [node_header_t.PartFits, Host.INDEX_node_rec_dsc]
  simp only [sizeof_rec_descriptor_t] at hlt ⊢
  omega

theorem halves_valid (hn : 2 ≤ recs.length) (hhalves : halves_fit expand (size - host.header)) :
    ValidPoints host expand size (expand.node_count / 2) (expand.node_count / 2) := by
  have hcount := h.node_count_eq
  obtain ⟨hlow, hhigh⟩ := hhalves
  refine ⟨by omega, le_rfl, by omega, ?_, fun hlt => absurd hlt (lt_irrefl _), ?_⟩
  · exact h.partFits_of_lt (by omega) (by omega) (h.finish_le_offset (by omega) (by omega)) hlow
  · exact h.partFits_of_lt (by omega) (by omega) le_rfl hhigh

theorem covered_of_lt {max_size : ℕ} (hn : 2 ≤ recs.length)
    (hlt : (expand.node_count - 0) * sizeof_rec_descriptor_t + expand.finish (expand.node_count - 1) - (expand.dsc 0).rec_offset < max_size) :
    Covered max_size recs := by
  have hcount := h.node_count_eq
  have hlen := length_costs recs
  have hfinish := finish_part h (show 0 < recs.length by omega) le_rfl
  have hpart : part recs 0 recs.length = recs := by simp [part]
  have hspan := sum_le_span host.ALIGN_SIZE_pos (lengths recs)
  have hsum := sum_costs recs
  have hleading : (costs recs).length ≤ leading max_size (costs recs) := by
    rw [le_leading_iff (by omega) le_rfl, List.take_length, hsum]
    rw [hcount, hfinish, hpart] at hlt
    simp only [sizeof_rec_descriptor_t] at hlt ⊢
    omega
  unfold Covered
  omega

theorem thirds_valid (hn : 3 ≤ recs.length) (hthirds : thirds_fit expand (size - host.header)) :
    ValidPoints host expand size (expand.node_count / 3) (expand.node_count / 3 * 2) := by
  have hcount := h.node_count_eq
  obtain ⟨hlow, hmiddle, hhigh⟩ := hthirds
  refine ⟨by omega, by omega, by omega, ?_, fun _ => ?_, ?_⟩
  · exact h.partFits_of_lt (by omega) (by omega) (h.finish_le_offset (by omega) (by omega)) hlow
  · exact h.partFits_of_lt (by omega) (by omega) (h.finish_le_offset (by omega) (by omega)) hmiddle
  · exact h.partFits_of_lt (by omega) (by omega) le_rfl hhigh

section Cases

variable (locals : Points)

omit h in
theorem split_points_halves (hhalves : halves_fit expand (size - host.header)) :
    (split_points host expand size locals).point1_p = expand.node_count / 2 ∧
      (split_points host expand size locals).point2_p = expand.node_count / 2 := by
  simp only [split_points, if_pos hhalves]
  exact ⟨rfl, rfl⟩

variable (hn : 2 ≤ recs.length) (hword : recs.length < 2 ^ 32) (hhalves : ¬ halves_fit expand (size - host.header))
include hn hword hhalves

theorem split_points_covered (hcovered : Covered (size - host.header) recs) :
    (split_points host expand size locals).point1_p = meeting (size - host.header) (costs recs) ∧
      (split_points host expand size locals).point2_p = meeting (size - host.header) (costs recs) := by
  simp only [split_points, if_neg hhalves, best_position_eq h hn hword, if_pos hcovered]
  exact ⟨rfl, rfl⟩

theorem split_points_thirds (hcovered : ¬ Covered (size - host.header) recs) (hthirds : thirds_fit expand (size - host.header)) :
    (split_points host expand size locals).point1_p = expand.node_count / 3 ∧
      (split_points host expand size locals).point2_p = expand.node_count / 3 * 2 := by
  simp only [split_points, if_neg hhalves, best_position_eq h hn hword, if_neg hcovered, if_pos hthirds]
  exact ⟨rfl, rfl⟩

theorem split_points_fill_up (hcovered : ¬ Covered (size - host.header) recs)
    (hthirds : ¬ thirds_fit expand (size - host.header)) :
    (split_points host expand size locals).point2_p = locals.point2 := by
  simp only [split_points, if_neg hhalves, best_position_eq h hn hword, if_neg hcovered, if_neg hthirds]
  split
  · split <;> rfl
  · rfl

end Cases

end Valid

/-- What is wanted of `split_points` and `split_bucket`, whatever the locals hold at first. -/
structure SplitsWell (host : Host) (expand bkt : node_header_t) : Prop where
  valid : ∀ locals, ValidPoints host expand (bkt.node_blocks * BLOCK_SIZE)
    (split_points host expand (bkt.node_blocks * BLOCK_SIZE) locals).point1_p
    (split_points host expand (bkt.node_blocks * BLOCK_SIZE) locals).point2_p
  keeps : KeepsRecords host expand bkt

theorem splitsWell_iff_of_holds {host : Host} {expand bkt : node_header_t} {recs : List (List Byte)}
    (h : expand.Holds host recs) (hn : 2 ≤ recs.length) (hword : recs.length < 2 ^ 32) :
    SplitsWell host expand bkt ↔ Divisible host expand (bkt.node_blocks * BLOCK_SIZE) := by
  rw [Divisible, h.records_eq]
  have hcount := h.node_count_eq
  constructor
  · rintro ⟨hvalid, -⟩
    by_cases hhalves : halves_fit expand (bkt.node_blocks * BLOCK_SIZE - host.header)
    · exact .inl hhalves
    · by_cases hcovered : Covered (bkt.node_blocks * BLOCK_SIZE - host.header) recs
      · have hlocals := hvalid ⟨0, 0, 0, 0⟩
        obtain ⟨hpoint1, hpoint2⟩ := split_points_covered h ⟨0, 0, 0, 0⟩ hn hword hhalves hcovered
        rw [hpoint1, hpoint2] at hlocals
        exact .inr (.inl ⟨hcovered, hlocals.low, hlocals.high⟩)
      · by_cases hthirds : thirds_fit expand (bkt.node_blocks * BLOCK_SIZE - host.header)
        · exact .inr (.inr ⟨hcovered, hthirds⟩)
        · have hlocals := hvalid ⟨0, 0, 0, 0⟩
          have hpoint2 := split_points_fill_up h ⟨0, 0, 0, 0⟩ hn hword hhalves hcovered hthirds
          have hone := hlocals.one_le.trans hlocals.le
          rw [hpoint2] at hone
          exact absurd hone (by decide)
  · intro hdivisible
    have hvalid : ∀ locals, ValidPoints host expand (bkt.node_blocks * BLOCK_SIZE)
        (split_points host expand (bkt.node_blocks * BLOCK_SIZE) locals).point1_p
        (split_points host expand (bkt.node_blocks * BLOCK_SIZE) locals).point2_p := by
      intro locals
      by_cases hhalves : halves_fit expand (bkt.node_blocks * BLOCK_SIZE - host.header)
      · rw [(split_points_halves locals hhalves).1, (split_points_halves locals hhalves).2]
        exact halves_valid h hn hhalves
      · rcases hdivisible with hhalves' | ⟨hcovered, hlow, hhigh⟩ | ⟨hcovered, hthirds⟩
        · exact absurd hhalves' hhalves
        · obtain ⟨hpoint1, hpoint2⟩ := split_points_covered h locals hn hword hhalves hcovered
          obtain ⟨hpos, hlt⟩ := meeting_bounds (by rwa [length_costs]) (by rwa [length_costs])
          rw [length_costs] at hlt
          rw [hpoint1, hpoint2]
          exact ⟨hpos, le_rfl, hcount ▸ hlt, hlow, fun hlt => absurd hlt (lt_irrefl _), hhigh⟩
        · obtain ⟨hpoint1, hpoint2⟩ := split_points_thirds h locals hn hword hhalves hcovered hthirds
          rw [hpoint1, hpoint2]
          refine thirds_valid h ?_ hthirds
          by_contra hfew
          have hzero : expand.node_count / 3 = 0 := by omega
          obtain ⟨-, -, hall⟩ := hthirds
          rw [hzero] at hall
          exact hcovered (covered_of_lt h hn hall)
    exact ⟨hvalid, keepsRecords_of_valid h hvalid⟩

section Expand

variable {host : Host} {bkt expand : node_header_t} {recs : List (List Byte)}

theorem node_header_t.Holds.extended (h : bkt.Holds host recs) (new_size : ℕ) : (extended bkt new_size).Holds host recs :=
  ⟨h.descriptors, h.stored⟩

theorem node_header_t.Valid.length_lt (h : bkt.Valid host recs) (hblocks : bkt.node_blocks ≤ MAX_BUCKET_BLOCKS) :
    recs.length < 2 ^ 16 := by
  have hfits := h.fits
  simp only [Host.needs, Host.INDEX_node_rec_dsc, sizeof_rec_descriptor_t, BLOCK_SIZE, MAX_BUCKET_BLOCKS, DATA_BUCKET_BLOCKS]
    at hfits hblocks
  omega

theorem node_header_t.Valid.ne_nil_of_error {len space : ℕ} {r : List Byte} (h : bkt.Valid host recs) (hr : r.length = len)
    (hfit : host.needs [r] ≤ bkt.node_blocks * BLOCK_SIZE) {left right : List (List Byte)} (hrecs : recs = left ++ right)
    (herror : make_room host bkt left.length len = .error space) : 1 ≤ recs.length := by
  rcases eq_or_ne recs [] with rfl | hne
  · obtain ⟨rfl, rfl⟩ := List.append_eq_nil_iff.mp hrecs.symm
    have hshort := make_room_empty_error h.holds herror
    have hspace := h.node_space_eq
    simp only [Host.needs, Host.INDEX_node_rec_dsc, List.length_nil, List.length_singleton, lengths, List.map_nil,
      List.map_singleton, span, sizeof_rec_descriptor_t, hr] at hshort hspace hfit
    omega
  · exact List.length_pos_iff.mpr hne

theorem error_of_map_error {ε α β : Type*} {x : Except ε α} {f : α → β} {e : ε} (h : x.map f = .error e) : x = .error e := by
  cases x with
  | error => simpa [Except.map] using h
  | ok => simp [Except.map] at h

theorem length_insert (left right : List (List Byte)) (r : List Byte) :
    (left ++ r :: right).length = (left ++ right).length + 1 := by simp [Nat.add_assoc]

theorem Expanded.holds (h : bkt.Valid host recs) (hexpand : Expanded host bkt recs expand)
    (hfit : ∀ r ∈ expand.records, host.needs [r] ≤ bkt.node_blocks * BLOCK_SIZE) :
    ∃ recs', expand.Holds host recs' ∧ 2 ≤ recs'.length ∧ recs'.length < 2 ^ 32 := by
  cases hexpand with
  | insert_data left right key_p set_p blocks full done =>
    have hholds := insert_record_holds (h.holds.extended _) done
    have hone := h.ne_nil_of_error List.length_append (hfit _ (by simp [hholds.records_eq])) rfl (error_of_map_error full)
    have hlt := h.length_lt blocks.le
    exact ⟨_, hholds, by rw [length_insert]; omega, by rw [length_insert]; omega⟩
  | replace_data left right key_p set_p new_data_p blocks full done =>
    have hholds := replace_record_holds (h.holds.extended _) done
    have hlt := h.length_lt blocks.le
    rw [length_insert] at hlt
    refine ⟨_, hholds, ?_, by rw [length_insert]; omega⟩
    rw [length_insert]
    by_contra hfew
    obtain ⟨rfl, rfl⟩ := List.append_eq_nil_iff.mp (List.length_eq_zero_iff.mp (show (left ++ right).length = 0 by omega))
    have hshort := replace_record_alone_error h.holds full
    have hspace := h.node_space_eq
    have hnew := hfit (key_p.image ++ new_data_p.image) (by simp [hholds.records_eq])
    have hold := h.fits
    simp only [Host.needs, Host.INDEX_node_rec_dsc, List.nil_append, List.length_singleton, lengths, List.map_singleton, span,
      sizeof_rec_descriptor_t, List.length_append] at hshort hspace hnew hold
    omega
  | update_index left right src_p down_p blocks sized full done =>
    have hholds := insert_index_holds (h.holds.extended _) sized done
    have hlen : (host.order.store host.sizeof_byte_p down_p ++ src_p.drop host.sizeof_byte_p).length = src_p.length := by
      simp only [List.length_append, List.length_drop, ByteOrder.length_store]
      omega
    have hone := h.ne_nil_of_error hlen (hfit _ (by simp [hholds.records_eq])) rfl (error_of_map_error full)
    have hlt := h.length_lt (blocks.le.trans (by decide))
    exact ⟨_, hholds, by rw [length_insert]; omega, by rw [length_insert]; omega⟩

end Expand

/-- Splitting an expanded bucket goes well exactly under the condition on the records' lengths. -/
theorem split_points_valid_iff {host : Host} {bkt expand : node_header_t} {recs : List (List Byte)} (hbkt : bkt.Valid host recs)
    (hexpand : Expanded host bkt recs expand)
    (hfit : ∀ r ∈ expand.records, host.needs [r] ≤ bkt.node_blocks * BLOCK_SIZE) :
    SplitsWell host expand bkt ↔ Divisible host expand (bkt.node_blocks * BLOCK_SIZE) := by
  obtain ⟨recs', hholds, hn, hword⟩ := hexpand.holds hbkt hfit
  exact splitsWell_iff_of_holds hholds hn hword

section Crowded

def host32 : Host := ⟨.little, 4, .inl rfl⟩

def crowded : node_header_t where
  node_type := .DATA_BUCKET
  node_blocks := DATA_BUCKET_BLOCKS
  node_next_p := NULL
  node_prev_p := NULL
  node_space := 3864
  node_rec_dsc := [⟨48, 4077⟩, ⟨4128, 100⟩, ⟨4228, 100⟩]
  room := fun _ => 0

def zeros (len : ℕ) : List Byte := List.replicate len 0

@[simp]
theorem length_zeros (len : ℕ) : (zeros len).length = len := List.length_replicate

/-- The records of `crowded` before the place of a new record, and behind it. -/
def crowdedBefore : List (List Byte) := [zeros 4077]

def crowdedBehind : List (List Byte) := [zeros 100, zeros 100]

theorem crowded_valid : crowded.Valid host32 (crowdedBefore ++ crowdedBehind) := by
  have hread : ∀ offset len, Memory.read (fun _ => 0) offset len = zeros len := fun offset len => by
    simp [Memory.read, zeros]
  have hlens : lengths (crowdedBefore ++ crowdedBehind) = [4077, 100, 100] := by simp [crowdedBefore, crowdedBehind]
  refine ⟨⟨?_, ?_⟩, ?_, ?_⟩
  · rw [hlens]
    decide
  · simp only [crowded, crowdedBefore, crowdedBehind, List.singleton_append, Stored, length_zeros, hread, and_self]
  · rw [Host.needs, hlens]
    decide
  · rw [Host.needs, hlens]
    decide

def newKey : entry_key_t host32 where
  image := 40 :: 0 :: zeros 38
  two_le := by simp
  key_length := by simp only [List.length_cons, length_zeros]; decide
  aligned := by simp only [List.length_cons, length_zeros]; decide

def newSet : DBSet_t host32 where
  image := 194 :: 15 :: 0 :: 0 :: zeros 4030
  four_le := by simp
  ds_setl := by simp only [List.length_cons, length_zeros]; decide

theorem newKey_length : newKey.image.length = 40 := by simp [newKey]

theorem newSet_length : newSet.image.length = 4034 := by simp [newSet]

theorem crowded_full : insert_record host32 crowded crowdedBefore.length newKey newSet = .error 220 := by
  simp only [insert_record, newKey_length, newSet_length]
  rfl

theorem crowded_expands : ∃ expand, Expanded host32 crowded (crowdedBefore ++ crowdedBehind) expand ∧
    expand.Holds host32 (crowdedBefore ++ (newKey.image ++ newSet.image) :: crowdedBehind) := by
  have hroom : ∃ made, make_room host32 (extended crowded (host32.ALIGN_LEN (40 + 4034 + sizeof_rec_descriptor_t)))
      crowdedBefore.length (40 + 4034) = .ok made := ⟨_, rfl⟩
  obtain ⟨made, hmade⟩ := hroom
  have hdone : ∃ expand, insert_record host32 (extended crowded (host32.ALIGN_LEN
      (newKey.image.length + newSet.image.length + sizeof_rec_descriptor_t))) crowdedBefore.length newKey newSet = .ok expand := by
    simp only [insert_record, newKey_length, newSet_length, hmade]
    exact ⟨_, rfl⟩
  obtain ⟨expand, hdone⟩ := hdone
  exact ⟨expand, .insert_data crowdedBefore crowdedBehind newKey newSet rfl crowded_full hdone,
    insert_record_holds (crowded_valid.holds.extended _) hdone⟩

theorem crowded_fits {expand : node_header_t}
    (hholds : expand.Holds host32 (crowdedBefore ++ (newKey.image ++ newSet.image) :: crowdedBehind)) :
    ∀ r ∈ expand.records, host32.needs [r] ≤ crowded.node_blocks * BLOCK_SIZE := by
  rw [hholds.records_eq]
  simp only [crowdedBefore, crowdedBehind, List.singleton_append, List.forall_mem_cons, Host.needs, lengths, List.map_cons,
    List.map_nil, List.length_append, newKey_length, newSet_length, length_zeros]
  decide

/-- Splitting the expanded bucket where the records' lengths alone would fit overflows the first one by two bytes. -/
theorem split_points_overflow : ∃ expand, Expanded host32 crowded (crowdedBefore ++ crowdedBehind) expand ∧
    (∀ r ∈ expand.records, host32.needs [r] ≤ crowded.node_blocks * BLOCK_SIZE) ∧ ¬ SplitsWell host32 expand crowded := by
  obtain ⟨expand, hexpand, hholds⟩ := crowded_expands
  refine ⟨expand, hexpand, crowded_fits hholds, ?_⟩
  rw [splitsWell_iff_of_holds hholds (by decide) (by decide), Divisible, hholds.records_eq]
  have hlens : lengths (crowdedBefore ++ (newKey.image ++ newSet.image) :: crowdedBehind) = [4077, 4074, 100, 100] := by
    simp [crowdedBefore, crowdedBehind, newKey_length, newSet_length]
  have hdscs : expand.node_rec_dsc = [⟨56, 4077⟩, ⟨4136, 4074⟩, ⟨8212, 100⟩, ⟨8312, 100⟩] := by
    rw [hholds.descriptors, hlens]
    decide
  have hcut : meeting (crowded.node_blocks * BLOCK_SIZE - host32.header)
      (costs (crowdedBefore ++ (newKey.image ++ newSet.image) :: crowdedBehind)) = 2 := by
    rw [costs, hlens]
    decide
  have hcovered : Covered (crowded.node_blocks * BLOCK_SIZE - host32.header)
      (crowdedBefore ++ (newKey.image ++ newSet.image) :: crowdedBehind) := by
    rw [Covered, costs, hlens]
    decide
  rw [hcut]
  rintro (hhalves | ⟨-, hlow, -⟩ | ⟨hnot, -⟩)
  · simp only [halves_fit, node_header_t.node_count, node_header_t.finish, node_header_t.dsc, hdscs] at hhalves
    revert hhalves
    decide
  · simp only [node_header_t.PartFits, node_header_t.finish, node_header_t.dsc, hdscs] at hlow
    revert hlow
    decide
  · exact hnot hcovered

/-- The condition for the expanded bucket that overflows. -/
theorem split_points_valid_iff_crowded : ∃ expand, Expanded host32 crowded (crowdedBefore ++ crowdedBehind) expand ∧
    (SplitsWell host32 expand crowded ↔ Divisible host32 expand (crowded.node_blocks * BLOCK_SIZE)) := by
  obtain ⟨expand, hexpand, hholds⟩ := crowded_expands
  exact ⟨expand, hexpand, split_points_valid_iff crowded_valid hexpand (crowded_fits hholds)⟩

end Crowded

end dce.cds.btree
