import Dce.Cds.BtreeRoom

open lib

namespace dce.cds.btree

section Copy

variable {host : Host} {bkt : node_header_t} {recs : List (List Byte)} {i j : ℕ}

def part (recs : List (List Byte)) (i j : ℕ) : List (List Byte) := (recs.drop i).take (j - i)

/-- What `db_btree_copy_keys` needs in a bucket for the records of an expanded bucket from one position to another: the
header, the descriptors, and the records with the padding between them. -/
def node_header_t.PartFits (host : Host) (bkt : node_header_t) (size i j : ℕ) : Prop :=
  host.INDEX_node_rec_dsc (j - i) + (bkt.finish (j - 1) - (bkt.dsc i).rec_offset) ≤ size

theorem length_part (hij : i ≤ j) (hj : j ≤ recs.length) : (part recs i j).length = j - i := by
  simp only [part, List.length_take, List.length_drop]
  omega

theorem part_append (hij : i ≤ j) {k : ℕ} (hjk : j ≤ k) : part recs i j ++ part recs j k = part recs i k := by
  have hdrop : recs.drop j = (recs.drop i).drop (j - i) := by rw [List.drop_drop, Nat.add_sub_cancel' hij]
  have hsum : k - i = (j - i) + (k - j) := by omega
  rw [part, part, part, hdrop, hsum, List.take_add]

variable (recs) in
theorem parts_append (hij : i ≤ j) : recs = recs.take i ++ part recs i j ++ recs.drop j := by
  have hbefore : recs.take i = part recs 0 i := rfl
  rw [hbefore, part_append (Nat.zero_le i) hij]
  exact (List.take_append_drop j recs).symm

variable (h : bkt.Holds host recs) (hij : i < j) (hj : j ≤ recs.length)
include h hij hj

theorem offset_part : (bkt.dsc i).rec_offset =
    host.INDEX_node_rec_dsc recs.length + padded host.ALIGN_SIZE (lengths (recs.take i)) := by
  have hi : i < recs.length := by omega
  have hsplit : recs = recs.take i ++ recs[i] :: recs.drop (i + 1) := by
    rw [← List.drop_eq_getElem_cons hi, List.take_append_drop]
  have hdsc := h.dsc_eq hsplit
  rw [List.length_take, Nat.min_eq_left hi.le] at hdsc
  rw [hdsc]

theorem finish_part : bkt.finish (j - 1) = (bkt.dsc i).rec_offset + span host.ALIGN_SIZE (lengths (part recs i j)) := by
  have hlen := length_part hij.le hj
  have hpart : part recs i j ≠ [] := by
    rw [← List.length_pos_iff]
    omega
  have hbefore : (recs.take i ++ part recs i j).length = j := by
    simp only [List.length_append, List.length_take, hlen]
    omega
  have hfinish := h.finish_eq (List.append_ne_nil_of_right_ne_nil _ hpart) (parts_append recs hij.le)
  rw [hbefore, lengths, List.map_append, span_append _ (by simpa using hpart)] at hfinish
  rw [hfinish, offset_part h hij hj, Nat.add_assoc]

theorem db_btree_copy_keys_holds (newbkt : node_header_t) {size : ℕ} (hfits : bkt.PartFits host (size * BLOCK_SIZE) i j) :
    ∃ copy, db_btree_copy_keys host bkt newbkt size i j = some copy ∧ copy.Holds host (part recs i j) ∧
      copy.node_next_p = newbkt.node_next_p ∧ copy.node_prev_p = newbkt.node_prev_p := by
  have hcond : i < j ∧ j ≤ bkt.node_count := ⟨hij, h.node_count_eq.symm ▸ hj⟩
  have hfits' : host.INDEX_node_rec_dsc (j - i) + (bkt.finish (j - 1) - (bkt.dsc i).rec_offset) ≤ size * BLOCK_SIZE := hfits
  have hlen := length_part hij.le hj
  have hoffset := offset_part h hij hj
  have hsplit : lengths recs = lengths (recs.take i) ++ lengths (part recs i j) ++ lengths (recs.drop j) := by
    simp only [lengths, ← List.map_append, ← parts_append recs hij.le]
  have hbase : host.INDEX_node_rec_dsc (j - i) ≤ (bkt.dsc i).rec_offset := by
    have hmono : host.INDEX_node_rec_dsc (j - i) ≤ host.INDEX_node_rec_dsc recs.length :=
      Nat.add_le_add_left (Nat.mul_le_mul_left _ (by omega)) _
    omega
  refine ⟨_, (if_pos hcond).trans (if_pos hfits'), ⟨?_, ?_⟩, rfl, rfl⟩
  · have hbefore : (host.lay (host.INDEX_node_rec_dsc recs.length) (lengths (recs.take i))).length = i := by
      simp only [Host.length_lay, List.length_map, List.length_take]
      omega
    have hmiddle : (host.lay (bkt.dsc i).rec_offset (lengths (part recs i j))).length = j - i := by
      rw [Host.length_lay, List.length_map, hlen]
    simp only [h.descriptors, hsplit, Host.lay_append, List.append_assoc]
    rw [List.drop_left' hbefore, ← hoffset, List.take_left' hmiddle, hlen]
    have hadjust : ∀ k, (bkt.dsc i).rec_offset + k - ((bkt.dsc i).rec_offset - host.INDEX_node_rec_dsc (j - i)) =
        host.INDEX_node_rec_dsc (j - i) + k := fun k => by omega
    exact Host.map_lay fun k len => by simp only [rec_descriptor_t.adjusted, hadjust]
  · have hstored := h.stored
    rw [parts_append recs hij.le] at hstored
    have hpart := (Stored.append_iff.mp (Stored.append_iff.mp hstored).1).2
    rw [← parts_append recs hij.le, ← hoffset] at hpart
    rw [hlen]
    refine hpart.moved host.ALIGN_SIZE_pos fun k hk => Memory.write_read_inside _ ?_
    rwa [finish_part h hij hj, Nat.add_sub_cancel_left]

end Copy

namespace Buckets

/-- The bucket at an address points back to one bucket and on to another. -/
def PointsTo (b : Buckets) (p prev_p next_p : Address) : Prop :=
  ∃ bkt, b p = some bkt ∧ bkt.node_prev_p = prev_p ∧ bkt.node_next_p = next_p

/-- Buckets linked horizontally, with what is before and behind them. -/
def Linked (b : Buckets) : Address → List Address → Address → Prop
  | _, [], _ => True
  | prev_p, p :: ps, next_p => b.PointsTo p prev_p (ps.headD next_p) ∧ b.Linked p ps next_p

/-- All the buckets of a level of the tree. -/
structure Level (b : Buckets) (ps : List Address) : Prop where
  linked : b.Linked NULL ps NULL
  nodup : ps.Nodup
  not_null : NULL ∉ ps

def recordsAt (b : Buckets) (p : Address) : List (List Byte) := ((b p).map node_header_t.records).getD []

variable {b b' : Buckets}

theorem Linked.congr {prev_p next_p : Address} {ps : List Address} (h : b.Linked prev_p ps next_p)
    (hsame : ∀ p ∈ ps, ∀ x y, b.PointsTo p x y → b'.PointsTo p x y) : b'.Linked prev_p ps next_p := by
  induction ps generalizing prev_p with
  | nil => trivial
  | cons p ps ih =>
    obtain ⟨hp, hrest⟩ := h
    exact ⟨hsame p List.mem_cons_self _ _ hp, ih hrest fun q hq => hsame q (List.mem_cons_of_mem p hq)⟩

theorem PointsTo.of_eq {p prev_p next_p : Address} (h : b.PointsTo p prev_p next_p) (heq : b' p = b p) :
    b'.PointsTo p prev_p next_p := by
  obtain ⟨bkt, hbkt, hlinks⟩ := h
  exact ⟨bkt, heq.trans hbkt, hlinks⟩

theorem Linked.exists_of_mem {prev_p next_p p : Address} {ps : List Address} (h : b.Linked prev_p ps next_p) (hp : p ∈ ps) :
    ∃ bkt, b p = some bkt := by
  induction ps generalizing prev_p with
  | nil => cases hp
  | cons q ps ih =>
    obtain ⟨⟨bkt, hbkt, -⟩, hrest⟩ := h
    rcases List.mem_cons.mp hp with rfl | hp
    · exact ⟨bkt, hbkt⟩
    · exact ih hrest hp

theorem linked_append_iff {prev_p next_p : Address} {left right : List Address} :
    b.Linked prev_p (left ++ right) next_p ↔
      b.Linked prev_p left (right.headD next_p) ∧ b.Linked (left.getLastD prev_p) right next_p := by
  induction left generalizing prev_p with
  | nil => simp [Linked]
  | cons p left ih =>
    have hhead : (left ++ right).headD next_p = left.headD (right.headD next_p) := by cases left <;> rfl
    have hlast : (p :: left).getLastD prev_p = left.getLastD p := by cases left <;> rfl
    rw [List.cons_append, Linked, Linked, ih, hhead, hlast, and_assoc]

section LinkAfter

variable {p q : Address} {bkt newbkt : node_header_t}

section

variable (hp : b p = some bkt)

include hp

theorem next_eq : b.next p = bkt.node_next_p := by simp [next, hp]

theorem LINK_AFTER_self (hpq : p ≠ q) (hnext : bkt.node_next_p ≠ p) :
    (b.LINK_AFTER p q) p = some { bkt with node_next_p := q } := by
  simp only [LINK_AFTER, next_eq hp]
  split <;> simp [setPrev, setNext, Function.update_of_ne, hp, hpq, hnext.symm]

theorem LINK_AFTER_new (hq : b q = some newbkt) (hpq : p ≠ q) (hnext : bkt.node_next_p ≠ q) :
    (b.LINK_AFTER p q) q = some { newbkt with node_next_p := bkt.node_next_p, node_prev_p := p } := by
  simp only [LINK_AFTER, next_eq hp]
  split <;> simp [setPrev, setNext, Function.update_of_ne, hq, hpq.symm, hnext.symm]

theorem LINK_AFTER_next {next : node_header_t} (hnext : b bkt.node_next_p = some next)
    (hnull : bkt.node_next_p ≠ NULL) (hne : bkt.node_next_p ≠ p) (hneq : bkt.node_next_p ≠ q) :
    (b.LINK_AFTER p q) bkt.node_next_p = some { next with node_prev_p := q } := by
  simp [LINK_AFTER, next_eq hp, if_pos hnull, setPrev, setNext, Function.update_of_ne, hnext, hne, hneq]

theorem LINK_AFTER_other {x : Address} (hxp : x ≠ p) (hxq : x ≠ q) (hxn : x ≠ bkt.node_next_p) : (b.LINK_AFTER p q) x = b x := by
  simp only [LINK_AFTER, next_eq hp]
  split <;> simp [setPrev, setNext, Function.update_of_ne, hxp, hxq, hxn]

end

theorem recordsAt_update {f : node_header_t → node_header_t} (hf : ∀ k, (f k).records = k.records) (x y : Address) :
    recordsAt (Function.update b y ((b y).map f)) x = b.recordsAt x := by
  rcases eq_or_ne x y with rfl | hne
  · cases hx : b x <;> simp [recordsAt, hx, hf]
  · simp [recordsAt, Function.update_of_ne hne]

@[simp]
theorem recordsAt_setNext (x y next_p : Address) : (b.setNext y next_p).recordsAt x = b.recordsAt x :=
  recordsAt_update (f := fun bkt => { bkt with node_next_p := next_p }) (fun _ => rfl) x y

@[simp]
theorem recordsAt_setPrev (x y prev_p : Address) : (b.setPrev y prev_p).recordsAt x = b.recordsAt x :=
  recordsAt_update (f := fun bkt => { bkt with node_prev_p := prev_p }) (fun _ => rfl) x y

@[simp]
theorem recordsAt_LINK_AFTER (x : Address) : (b.LINK_AFTER p q).recordsAt x = b.recordsAt x := by
  simp only [LINK_AFTER]
  split <;> simp

theorem LINK_AFTER_exists {x : Address} (hx : ∃ k, b x = some k) : ∃ k, (b.LINK_AFTER p q) x = some k := by
  have hupdate : ∀ (b : Buckets) (y : Address) (f : node_header_t → node_header_t), (∃ k, b x = some k) →
      ∃ k, Function.update b y ((b y).map f) x = some k := by
    rintro b y f ⟨k, hk⟩
    rcases eq_or_ne x y with rfl | hne
    · exact ⟨f k, by simp [hk]⟩
    · exact ⟨k, by rw [Function.update_of_ne hne, hk]⟩
  simp only [LINK_AFTER]
  have hlinked := hupdate _ q (fun bkt => { bkt with node_prev_p := p })
    (hupdate _ p (fun bkt => { bkt with node_next_p := q })
      (hupdate b q (fun bkt => { bkt with node_next_p := b.next p }) hx))
  split
  · exact hupdate _ (b.next p) (fun bkt => { bkt with node_prev_p := q }) hlinked
  · exact hlinked

theorem Level.LINK_AFTER {before after : List Address} (h : b.Level (before ++ p :: after)) (hq : ∃ newbkt, b q = some newbkt)
    (hfresh : q ∉ before ++ p :: after) (hnull : q ≠ NULL) : (b.LINK_AFTER p q).Level (before ++ p :: q :: after) := by
  obtain ⟨newbkt, hq⟩ := hq
  obtain ⟨hbefore, ⟨bkt, hp, hprev, hnext⟩, hafter⟩ := linked_append_iff.mp h.linked
  have hnodup : (before ++ p :: q :: after).Nodup := by
    have hperm : (before ++ p :: q :: after).Perm (q :: (before ++ p :: after)) := by
      rw [List.append_cons, List.append_cons before p after]
      exact List.perm_middle
    exact hperm.nodup_iff.mpr (List.nodup_cons.mpr ⟨hfresh, h.nodup⟩)
  have hnot_null : NULL ∉ before ++ p :: q :: after := by
    have hold := h.not_null
    simp only [List.mem_append, List.mem_cons, not_or] at hold ⊢
    exact ⟨hold.1, hold.2.1, hnull.symm, hold.2.2⟩
  have hpq : p ≠ q := fun heq => hfresh (by simp [heq])
  have hq_before : q ∉ before := fun hmem => hfresh (by simp [hmem])
  have hq_after : q ∉ after := fun hmem => hfresh (by simp [hmem])
  have hdistinct := List.nodup_append.mp h.nodup
  have hp_after : p ∉ after := (List.nodup_cons.mp hdistinct.2.1).1
  have hnext_mem : bkt.node_next_p = NULL ∨ bkt.node_next_p ∈ after := by
    rw [hnext]
    cases after <;> simp
  have hnext_p : bkt.node_next_p ≠ p := by
    rcases hnext_mem with heq | hmem
    · exact fun heq' => h.not_null (by simp [← heq, heq'])
    · exact fun heq' => hp_after (heq' ▸ hmem)
  have hnext_q : bkt.node_next_p ≠ q := by
    rcases hnext_mem with heq | hmem
    · exact fun heq' => hnull (heq'.symm.trans heq)
    · exact fun heq' => hq_after (heq' ▸ hmem)
  have hnext_before : bkt.node_next_p ∉ before := by
    rcases hnext_mem with heq | hmem
    · exact fun hmem => h.not_null (by simp [← heq, hmem])
    · exact fun hmem' => hdistinct.2.2 _ hmem' _ (List.mem_cons_of_mem p hmem) rfl
  refine ⟨linked_append_iff.mpr ⟨hbefore.congr fun x hx _ _ hpoints => hpoints.of_eq ?_, ?_, ?_, ?_⟩, hnodup, hnot_null⟩
  · exact LINK_AFTER_other hp (fun heq => hdistinct.2.2 _ hx _ List.mem_cons_self heq) (fun heq => hq_before (heq ▸ hx))
      fun heq => hnext_before (heq ▸ hx)
  · exact ⟨_, LINK_AFTER_self hp hpq hnext_p, hprev, rfl⟩
  · exact ⟨_, LINK_AFTER_new hp hq hpq hnext_q, rfl, hnext⟩
  · cases after with
    | nil => trivial
    | cons a rest =>
      obtain ⟨⟨next, ha, -, hbehind⟩, hrest⟩ := hafter
      have hnext : bkt.node_next_p = a := hnext
      subst hnext
      have hnull_next : bkt.node_next_p ≠ NULL := fun heq => h.not_null (by simp [← heq])
      refine ⟨⟨_, LINK_AFTER_next hp ha hnull_next hnext_p hnext_q, rfl, hbehind⟩, hrest.congr fun x hx _ _ hpoints => hpoints.of_eq ?_⟩
      have hnext_rest := (List.nodup_cons.mp (List.nodup_cons.mp hdistinct.2.1).2).1
      exact LINK_AFTER_other hp (fun heq => hp_after (by simp [← heq, hx])) (fun heq => hq_after (by simp [← heq, hx]))
        fun heq => hnext_rest (heq ▸ hx)

end LinkAfter

section Stores

variable {p : Address} {ps : List Address} {bkt copy : node_header_t}

theorem Level.put (h : b.Level ps) (hp : b p = some bkt) (hnext : copy.node_next_p = bkt.node_next_p)
    (hprev : copy.node_prev_p = bkt.node_prev_p) : (b.put p copy).Level ps := by
  refine ⟨h.linked.congr fun q _ x y hq => ?_, h.nodup, h.not_null⟩
  rcases eq_or_ne q p with rfl | hne
  · obtain ⟨found, hfound, rfl, rfl⟩ := hq
    obtain rfl : bkt = found := Option.some.inj (hp.symm.trans hfound)
    exact ⟨copy, Function.update_self .., hprev, hnext⟩
  · exact hq.of_eq (Function.update_of_ne hne ..)

theorem Level.update_of_notMem (h : b.Level ps) (hp : p ∉ ps) (o : Option node_header_t) :
    Level (Function.update b p o) ps :=
  ⟨h.linked.congr fun _ hq _ _ hpoints => hpoints.of_eq (Function.update_of_ne (ne_of_mem_of_not_mem hq hp) ..), h.nodup,
    h.not_null⟩

@[simp]
theorem recordsAt_put (q : Address) : (b.put p copy).recordsAt q = if q = p then copy.records else b.recordsAt q := by
  by_cases h : q = p <;> simp [recordsAt, put, h]

@[simp]
theorem recordsAt_free (q : Address) : (b.free p).recordsAt q = if q = p then [] else b.recordsAt q := by
  by_cases h : q = p <;> simp [recordsAt, free, h]

end Stores

end Buckets

end dce.cds.btree
