import Dce.Lib.Filling
import Dce.Cds.BtreeCopy

open lib

namespace dce.cds.btree

/-- What each record takes in a bucket with its descriptor, the padding left out. -/
def costs (recs : List (List Byte)) : List ℕ := (lengths recs).map (sizeof_rec_descriptor_t + ·)

@[simp]
theorem length_costs (recs : List (List Byte)) : (costs recs).length = recs.length := by simp [costs]

theorem sum_costs (recs : List (List Byte)) :
    (costs recs).sum = recs.length * sizeof_rec_descriptor_t + (lengths recs).sum := by
  induction recs with
  | nil => rfl
  | cons r recs ih =>
    simp only [costs, lengths, List.map_cons, List.sum_cons, List.length_cons, sizeof_rec_descriptor_t] at ih ⊢
    omega

section BestPosition

variable {host : Host} {bkt : node_header_t} {recs : List (List Byte)} {max_size : ℕ}

theorem node_header_t.Holds.rec_length_eq (h : bkt.Holds host recs) {i : ℕ} (hi : i < recs.length)
    (hcost : i < (costs recs).length) : sizeof_rec_descriptor_t + (bkt.dsc i).rec_length = (costs recs)[i] := by
  have hsplit : recs = recs.take i ++ recs[i] :: recs.drop (i + 1) := by
    rw [← List.drop_eq_getElem_cons hi, List.take_append_drop]
  have hdsc := h.dsc_eq hsplit
  rw [List.length_take, Nat.min_eq_left hi.le] at hdsc
  simp [hdsc, costs]

def endsAfter (max_size : ℕ) (recs : List (List Byte)) (turns : ℕ) : Ends where
  bottom := min turns (leading max_size (costs recs))
  bottom_len := ((costs recs).take (min turns (leading max_size (costs recs)))).sum
  top := recs.length - 1 - min turns (trailing max_size (costs recs))
  top_len := ((costs recs).drop (recs.length - min turns (trailing max_size (costs recs)))).sum

/-- The two ends have not met after so many turns. -/
def NotMet (max_size : ℕ) (recs : List (List Byte)) (turns : ℕ) : Prop :=
  min turns (leading max_size (costs recs)) + min turns (trailing max_size (costs recs)) < recs.length

theorem left_endsAfter (h : bkt.Holds host recs) {turns : ℕ} (hapart : NotMet max_size recs turns) :
    (endsAfter max_size recs turns).left bkt max_size =
      { endsAfter max_size recs turns with
        bottom := (endsAfter max_size recs (turns + 1)).bottom
        bottom_len := (endsAfter max_size recs (turns + 1)).bottom_len } := by
  have hlen := length_costs recs
  have hbottom : min turns (leading max_size (costs recs)) < recs.length := Nat.lt_of_add_right_lt hapart
  have hsum : ((costs recs).take (min turns (leading max_size (costs recs)))).sum + sizeof_rec_descriptor_t +
      (bkt.dsc (min turns (leading max_size (costs recs)))).rec_length =
      ((costs recs).take (min turns (leading max_size (costs recs)) + 1)).sum := by
    rw [Nat.add_assoc, h.rec_length_eq hbottom (hlen.symm ▸ hbottom), List.sum_take_succ]
  have hiff : ((costs recs).take (min turns (leading max_size (costs recs)) + 1)).sum < max_size ↔
      min turns (leading max_size (costs recs)) + 1 ≤ leading max_size (costs recs) :=
    (le_leading_iff (Nat.succ_pos _) (by omega)).symm
  simp only [Ends.left, endsAfter, hsum, hiff]
  rcases Nat.lt_or_ge turns (leading max_size (costs recs)) with hlt | hge
  · have hmin : min turns (leading max_size (costs recs)) = turns := Nat.min_eq_left hlt.le
    have hmin' : min (turns + 1) (leading max_size (costs recs)) = turns + 1 := Nat.min_eq_left hlt
    rw [if_pos (by omega), hmin, hmin']
  · have hmin : min turns (leading max_size (costs recs)) = leading max_size (costs recs) := Nat.min_eq_right hge
    have hmin' : min (turns + 1) (leading max_size (costs recs)) = leading max_size (costs recs) :=
      Nat.min_eq_right (by omega)
    rw [if_neg (by omega), hmin, hmin']

theorem NotMet.right_lt (hn : 2 ≤ recs.length) {turns : ℕ} (hapart : NotMet max_size recs turns) :
    min (turns + 1) (trailing max_size (costs recs)) < recs.length := by
  have hlen := length_costs recs
  have hpos : 0 < (costs recs).length := by omega
  have hall := leading_eq_length_iff max_size hpos
  unfold NotMet at hapart
  omega

theorem right_endsAfter (h : bkt.Holds host recs) (hn : 2 ≤ recs.length) (hword : recs.length < 2 ^ 32) {turns : ℕ}
    (hapart : NotMet max_size recs turns) :
    ((endsAfter max_size recs turns).left bkt max_size).right bkt max_size = endsAfter max_size recs (turns + 1) := by
  have hlen := length_costs recs
  have hright := hapart.right_lt hn
  have htop : min turns (trailing max_size (costs recs)) < recs.length := by omega
  have hsum : ((costs recs).drop (recs.length - min turns (trailing max_size (costs recs)))).sum + sizeof_rec_descriptor_t +
      (bkt.dsc (recs.length - 1 - min turns (trailing max_size (costs recs)))).rec_length =
      ((costs recs).drop (recs.length - (min turns (trailing max_size (costs recs)) + 1))).sum := by
    have hlt : recs.length - 1 - min turns (trailing max_size (costs recs)) < recs.length := by omega
    have hnext : recs.length - (min turns (trailing max_size (costs recs)) + 1) =
        recs.length - 1 - min turns (trailing max_size (costs recs)) := by omega
    have hlast : recs.length - min turns (trailing max_size (costs recs)) =
        recs.length - 1 - min turns (trailing max_size (costs recs)) + 1 := by omega
    have hinside : recs.length - 1 - min turns (trailing max_size (costs recs)) < (costs recs).length := by omega
    have hdrop := List.drop_eq_getElem_cons hinside
    rw [Nat.add_assoc, h.rec_length_eq hlt hinside, hnext, hlast, hdrop, List.sum_cons, Nat.add_comm]
  have hiff : ((costs recs).drop (recs.length - (min turns (trailing max_size (costs recs)) + 1))).sum < max_size ↔
      min turns (trailing max_size (costs recs)) + 1 ≤ trailing max_size (costs recs) := by
    rw [le_trailing_iff (Nat.succ_pos _) (by omega), hlen]
  rw [left_endsAfter h hapart]
  simp only [Ends.right, endsAfter, hsum, hiff]
  rcases Nat.lt_or_ge turns (trailing max_size (costs recs)) with hlt | hge
  · have hmin : min turns (trailing max_size (costs recs)) = turns := Nat.min_eq_left hlt.le
    have hmin' : min (turns + 1) (trailing max_size (costs recs)) = turns + 1 := Nat.min_eq_left hlt
    have hdec : (recs.length - 1 - turns + 2 ^ 32 - 1) % 2 ^ 32 = recs.length - 1 - (turns + 1) := by omega
    rw [if_pos (by omega), hmin, hmin', hdec]
  · have hmin : min turns (trailing max_size (costs recs)) = trailing max_size (costs recs) := Nat.min_eq_right hge
    have hmin' : min (turns + 1) (trailing max_size (costs recs)) = trailing max_size (costs recs) :=
      Nat.min_eq_right (by omega)
    rw [if_neg (by omega), hmin, hmin']

theorem NotMet.of_le {turns turns' : ℕ} (hle : turns ≤ turns') (h : NotMet max_size recs turns') :
    NotMet max_size recs turns := by
  unfold NotMet at h ⊢
  omega

theorem best_position_endsAfter (h : bkt.Holds host recs) (hn : 2 ≤ recs.length) (hword : recs.length < 2 ^ 32)
    (turns : ℕ) {done : ℕ} (hapart : NotMet max_size recs done) :
    (NotMet max_size recs (done + turns) → best_position bkt max_size turns (endsAfter max_size recs done) = none) ∧
      (¬ NotMet max_size recs (done + turns) →
        best_position bkt max_size turns (endsAfter max_size recs done) = some (meeting max_size (costs recs))) := by
  induction turns generalizing done with
  | zero => exact ⟨fun _ => rfl, fun hmet => absurd hapart hmet⟩
  | succ turns ih =>
    have hright := hapart.right_lt hn
    simp only [best_position, right_endsAfter h hn hword hapart]
    have hcross : (endsAfter max_size recs (done + 1)).top < (endsAfter max_size recs (done + 1)).bottom ↔
        ¬ NotMet max_size recs (done + 1) := by
      simp only [endsAfter, NotMet]
      omega
    by_cases hmet : NotMet max_size recs (done + 1)
    · rw [if_neg (fun hlt => hcross.mp hlt hmet), ← Nat.add_assoc, Nat.add_right_comm]
      exact ih hmet
    · have hcut : meeting max_size (costs recs) = (endsAfter max_size recs (done + 1)).bottom := by
        refine meeting_eq ?_ ?_
        · rw [length_costs]
          exact Nat.not_lt.mp hmet
        · rw [length_costs]
          exact hapart
      rw [if_pos (hcross.mpr hmet), hcut]
      exact ⟨fun hnot => absurd (hnot.of_le (by omega)) hmet, fun _ => rfl⟩

/-- The records that both ends can take between them are all. -/
def Covered (max_size : ℕ) (recs : List (List Byte)) : Prop :=
  recs.length ≤ leading max_size (costs recs) + trailing max_size (costs recs)

instance : Decidable (Covered max_size recs) := Nat.decLe _ _

theorem best_position_eq (h : bkt.Holds host recs) (hn : 2 ≤ recs.length) (hword : recs.length < 2 ^ 32) :
    best_position bkt max_size bkt.node_count ⟨0, 0, (bkt.node_count + 2 ^ 32 - 1) % 2 ^ 32, 0⟩ =
      if Covered max_size recs then some (meeting max_size (costs recs)) else none := by
  have hstart : (⟨0, 0, (bkt.node_count + 2 ^ 32 - 1) % 2 ^ 32, 0⟩ : Ends) = endsAfter max_size recs 0 := by
    have hdec : (recs.length + 2 ^ 32 - 1) % 2 ^ 32 = recs.length - 1 := by omega
    rw [h.node_count_eq, hdec, endsAfter, Nat.zero_min, Nat.zero_min, List.take_zero, List.drop_of_length_le (by simp)]
    rfl
  have hapart : NotMet max_size recs 0 := by
    unfold NotMet
    omega
  have hend : NotMet max_size recs (0 + bkt.node_count) ↔ ¬ Covered max_size recs := by
    have hleading : leading max_size (costs recs) ≤ _ := leading_le
    have htrailing : trailing max_size (costs recs) ≤ _ := trailing_le
    rw [length_costs] at hleading htrailing
    rw [h.node_count_eq, NotMet, Covered]
    omega
  obtain ⟨hnone, hsome⟩ := best_position_endsAfter h hn hword bkt.node_count hapart
  rw [hend] at hnone hsome
  rw [hstart]
  split
  · next hcovered => exact hsome (not_not.mpr hcovered)
  · next hcovered => exact hnone hcovered

end BestPosition

/-- Two split points that cut the records into two parts, when they are the same, or three, each of which has a record and
fits in a bucket of this size. -/
structure ValidPoints (host : Host) (expand : node_header_t) (size point1 point2 : ℕ) : Prop where
  one_le : 1 ≤ point1
  le : point1 ≤ point2
  lt : point2 < expand.node_count
  low : expand.PartFits host size 0 point1
  middle : point1 < point2 → expand.PartFits host size point1 point2
  high : expand.PartFits host size point2 expand.node_count

/-- The buckets among which one is to be split: those of its level, and the expanded one apart from them. -/
structure Splitting (b : Buckets) (expand_p bkt_p : Address) (before after : List Address) (expand bkt : node_header_t) :
    Prop where
  expand : b expand_p = some expand
  bkt : b bkt_p = some bkt
  level : b.Level (before ++ bkt_p :: after)
  expand_apart : expand_p ∉ before ++ bkt_p :: after

/-- An address that `dns_malloc_perm` may give. -/
structure Fresh (b : Buckets) (p : Address) : Prop where
  not_null : p ≠ NULL
  free : b p = none

/-- `split_bucket`, once it gets the buckets it asks for, keeps every record in its order exactly once: the bucket and the
new ones, which are linked behind it, hold those of the expanded bucket, and all the others hold what they did. -/
def KeepsRecords (host : Host) (expand bkt : node_header_t) : Prop :=
  ∀ (b : Buckets) (prm : btree_prm_t) (expand_p bkt_p : Address) (before after : List Address)
    (split2 split1 : Address × node_header_t) (locals : Points), Splitting b expand_p bkt_p before after expand bkt →
    Fresh b split2.1 → Fresh b split1.1 → split2.1 ≠ split1.1 →
    ∃ b' prm' new, split_bucket host b prm expand_p bkt_p (some split2) (some split1) locals = some (.DNS_SUCCESS, b', prm') ∧
      b'.Level (before ++ bkt_p :: (new ++ after)) ∧ (bkt_p :: new).flatMap b'.recordsAt = expand.records ∧
      ∀ p ∈ before ++ after, b'.recordsAt p = b.recordsAt p

section Keeps

variable {host : Host} {expand bkt : node_header_t} {recs : List (List Byte)} {b : Buckets} {expand_p bkt_p : Address}
  {before after : List Address}

theorem Fresh.notMem {p : Address} (hfresh : Fresh b p) (hsplit : Splitting b expand_p bkt_p before after expand bkt) :
    p ∉ before ++ bkt_p :: after := fun hp => by
  obtain ⟨found, hfound⟩ := hsplit.level.linked.exists_of_mem hp
  rw [hfresh.free] at hfound
  cases hfound

theorem Fresh.ne {p q : Address} (hfresh : Fresh b p) (hq : b q = some bkt) : q ≠ p := fun heq => by
  have hfree := hfresh.free
  rw [← heq, hq] at hfree
  cases hfree

theorem notMem_insert {p q r : Address} {left right : List Address} (hp : p ∉ left ++ q :: right) (hne : p ≠ r) :
    p ∉ left ++ q :: r :: right := by
  simp only [List.mem_append, List.mem_cons, not_or] at hp ⊢
  exact ⟨hp.1, hp.2.1, hne, hp.2.2⟩

def twoBuckets (b : Buckets) (expand_p bkt_p split2_bkt_p : Address) (low high : node_header_t) : Buckets :=
  (((b.put split2_bkt_p high).put bkt_p low).LINK_AFTER bkt_p split2_bkt_p).free expand_p

def threeBuckets (b : Buckets) (expand_p bkt_p split2_bkt_p split1_bkt_p : Address) (low mid high : node_header_t) : Buckets :=
  (((((b.put split2_bkt_p high).put split1_bkt_p mid).put bkt_p low).LINK_AFTER bkt_p split2_bkt_p).LINK_AFTER bkt_p
    split1_bkt_p).free expand_p

variable {split2_bkt_p split1_bkt_p : Address} {low mid high : node_header_t}
  (hsplit : Splitting b expand_p bkt_p before after expand bkt) (hfresh2 : Fresh b split2_bkt_p)
  (hnext : low.node_next_p = bkt.node_next_p) (hprev : low.node_prev_p = bkt.node_prev_p)
include hsplit hfresh2

include hnext hprev in
theorem twoBuckets_level :
    (twoBuckets b expand_p bkt_p split2_bkt_p low high).Level (before ++ bkt_p :: split2_bkt_p :: after) := by
  have hbkt := hfresh2.ne hsplit.bkt
  have hput := (hsplit.level.update_of_notMem (hfresh2.notMem hsplit) (some high)).put
    ((Function.update_of_ne hbkt ..).trans hsplit.bkt) hnext hprev
  have hlink := hput.LINK_AFTER ⟨high, by simp [Buckets.put, Function.update_of_ne, hbkt.symm]⟩ (hfresh2.notMem hsplit)
    hfresh2.not_null
  exact hlink.update_of_notMem (notMem_insert hsplit.expand_apart (hfresh2.ne hsplit.expand)) none

omit hfresh2 in
theorem mem_others {p : Address} (hp : p ∈ before ++ after) : p ≠ bkt_p ∧ p ∈ before ++ bkt_p :: after := by
  have hnodup := List.nodup_append.mp hsplit.level.nodup
  rcases List.mem_append.mp hp with hp | hp
  · exact ⟨hnodup.2.2 p hp bkt_p List.mem_cons_self, List.mem_append_left _ hp⟩
  · refine ⟨fun heq => (List.nodup_cons.mp hnodup.2.1).1 (heq ▸ hp), ?_⟩
    exact List.mem_append_right _ (List.mem_cons_of_mem _ hp)

theorem twoBuckets_records :
    [bkt_p, split2_bkt_p].flatMap (twoBuckets b expand_p bkt_p split2_bkt_p low high).recordsAt =
      low.records ++ high.records := by
  have hbkt := hfresh2.ne hsplit.bkt
  have hexpand := hfresh2.ne hsplit.expand
  have hapart : bkt_p ≠ expand_p := fun heq => hsplit.expand_apart (by simp [heq])
  simp [twoBuckets, hbkt.symm, hexpand.symm, hapart]

theorem twoBuckets_others {p : Address} (hp : p ∈ before ++ after) :
    (twoBuckets b expand_p bkt_p split2_bkt_p low high).recordsAt p = b.recordsAt p := by
  obtain ⟨hne, hp⟩ := mem_others hsplit hp
  have hexpand : p ≠ expand_p := ne_of_mem_of_not_mem hp hsplit.expand_apart
  have hsplit2 : p ≠ split2_bkt_p := ne_of_mem_of_not_mem hp (hfresh2.notMem hsplit)
  simp [twoBuckets, hne, hexpand, hsplit2]

section Three

variable (hfresh1 : Fresh b split1_bkt_p) (hdistinct : split2_bkt_p ≠ split1_bkt_p)
include hfresh1 hdistinct

include hnext hprev in
theorem threeBuckets_level : (threeBuckets b expand_p bkt_p split2_bkt_p split1_bkt_p low mid high).Level
    (before ++ bkt_p :: split1_bkt_p :: split2_bkt_p :: after) := by
  have hbkt2 := hfresh2.ne hsplit.bkt
  have hbkt1 := hfresh1.ne hsplit.bkt
  have hat : (Function.update (Function.update b split2_bkt_p (some high)) split1_bkt_p (some mid) : Buckets) bkt_p = some bkt := by
    rw [Function.update_of_ne hbkt1, Function.update_of_ne hbkt2, hsplit.bkt]
  have hput := ((hsplit.level.update_of_notMem (hfresh2.notMem hsplit) (some high)).update_of_notMem
    (hfresh1.notMem hsplit) (some mid)).put hat hnext hprev
  have hlink2 := hput.LINK_AFTER ⟨high, by simp [Buckets.put, Function.update_of_ne, hbkt2.symm, hdistinct]⟩
    (hfresh2.notMem hsplit) hfresh2.not_null
  have hlink1 := hlink2.LINK_AFTER
    (Buckets.LINK_AFTER_exists ⟨mid, by simp [Buckets.put, Function.update_of_ne, hbkt1.symm]⟩)
    (notMem_insert (hfresh1.notMem hsplit) hdistinct.symm) hfresh1.not_null
  have hexpand := notMem_insert (notMem_insert hsplit.expand_apart (hfresh2.ne hsplit.expand)) (hfresh1.ne hsplit.expand)
  exact hlink1.update_of_notMem hexpand none

theorem threeBuckets_records :
    [bkt_p, split1_bkt_p, split2_bkt_p].flatMap
      (threeBuckets b expand_p bkt_p split2_bkt_p split1_bkt_p low mid high).recordsAt =
        low.records ++ mid.records ++ high.records := by
  have hbkt2 := hfresh2.ne hsplit.bkt
  have hbkt1 := hfresh1.ne hsplit.bkt
  have hexpand2 := hfresh2.ne hsplit.expand
  have hexpand1 := hfresh1.ne hsplit.expand
  have hapart : bkt_p ≠ expand_p := fun heq => hsplit.expand_apart (by simp [heq])
  simp [threeBuckets, hbkt2.symm, hbkt1.symm, hexpand2.symm, hexpand1.symm, hapart, hdistinct]

omit hdistinct in
theorem threeBuckets_others {p : Address} (hp : p ∈ before ++ after) :
    (threeBuckets b expand_p bkt_p split2_bkt_p split1_bkt_p low mid high).recordsAt p = b.recordsAt p := by
  obtain ⟨hne, hp⟩ := mem_others hsplit hp
  have hexpand : p ≠ expand_p := ne_of_mem_of_not_mem hp hsplit.expand_apart
  have hsplit2 : p ≠ split2_bkt_p := ne_of_mem_of_not_mem hp (hfresh2.notMem hsplit)
  have hsplit1 : p ≠ split1_bkt_p := ne_of_mem_of_not_mem hp (hfresh1.notMem hsplit)
  simp [threeBuckets, hne, hexpand, hsplit2, hsplit1]

end Three

end Keeps

theorem keepsRecords_of_valid {host : Host} {expand bkt : node_header_t} {recs : List (List Byte)}
    (h : expand.Holds host recs)
    (hvalid : ∀ locals, ValidPoints host expand (bkt.node_blocks * BLOCK_SIZE)
      (split_points host expand (bkt.node_blocks * BLOCK_SIZE) locals).point1_p
      (split_points host expand (bkt.node_blocks * BLOCK_SIZE) locals).point2_p) : KeepsRecords host expand bkt := by
  rintro b prm expand_p bkt_p before after ⟨split2_bkt_p, fresh2⟩ ⟨split1_bkt_p, fresh1⟩ locals hsplit hfresh2 hfresh1 hdistinct
  obtain ⟨hone, hle, hlt, hlow, hmiddle, hhigh⟩ := hvalid locals
  generalize hpoint1 : (split_points host expand (bkt.node_blocks * BLOCK_SIZE) locals).point1_p = point1 at *
  generalize hpoint2 : (split_points host expand (bkt.node_blocks * BLOCK_SIZE) locals).point2_p = point2 at *
  have hcount := h.node_count_eq
  obtain ⟨high, hcopyHigh, hhigh, -⟩ := db_btree_copy_keys_holds h hlt (le_of_eq hcount) fresh2 hhigh
  obtain ⟨low, hcopyLow, hlow, hnext, hprev⟩ :=
    db_btree_copy_keys_holds h (Nat.lt_of_lt_of_le Nat.zero_lt_one hone) (by omega) bkt hlow
  have hall : part recs 0 recs.length = recs := by simp [part]
  rw [hcount] at hhigh
  rcases Nat.lt_or_ge point1 point2 with hlt12 | hge
  · obtain ⟨mid, hcopyMid, hmid, -⟩ := db_btree_copy_keys_holds h hlt12 (by omega) fresh1 (hmiddle hlt12)
    refine ⟨threeBuckets b expand_p bkt_p split2_bkt_p split1_bkt_p low mid high, prm.moved bkt_p split2_bkt_p,
      [split1_bkt_p, split2_bkt_p], ?_, threeBuckets_level hsplit hfresh2 hnext hprev hfresh1 hdistinct, ?_,
      fun p hp => threeBuckets_others hsplit hfresh2 hfresh1 hp⟩
    · simp only [split_bucket, hsplit.expand, hsplit.bkt, Option.bind_eq_bind, Option.bind_some, hpoint1, hpoint2, hcopyHigh,
        if_pos hlt12, hcopyMid, hcopyLow]
      rfl
    · rw [threeBuckets_records hsplit hfresh2 hfresh1 hdistinct, hlow.records_eq, hmid.records_eq, hhigh.records_eq,
        part_append (Nat.zero_le _) hle, part_append (Nat.zero_le _) (by omega), hall, h.records_eq]
  · obtain rfl : point1 = point2 := Nat.le_antisymm hle hge
    refine ⟨twoBuckets b expand_p bkt_p split2_bkt_p low high, prm.moved bkt_p split2_bkt_p, [split2_bkt_p], ?_,
      twoBuckets_level hsplit hfresh2 hnext hprev, ?_, fun p hp => twoBuckets_others hsplit hfresh2 hp⟩
    · simp only [split_bucket, hsplit.expand, hsplit.bkt, Option.bind_eq_bind, Option.bind_some, hpoint1, hpoint2, hcopyHigh,
        if_neg (lt_irrefl _), hcopyLow]
      rfl
    · rw [twoBuckets_records hsplit hfresh2, hlow.records_eq, hhigh.records_eq, part_append (Nat.zero_le _) (by omega), hall,
        h.records_eq]

end dce.cds.btree
