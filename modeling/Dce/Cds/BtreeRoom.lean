import Dce.Cds.Btree

open lib

namespace dce.cds.btree

namespace Host

variable (host : Host)

theorem ALIGN_SIZE_pos : 0 < host.ALIGN_SIZE := by
  rcases host.pointer with h | h <;> simp [ALIGN_SIZE, h]

theorem dvd_INDEX_node_rec_dsc (idx : ℕ) : host.ALIGN_SIZE ∣ host.INDEX_node_rec_dsc idx := by
  rcases host.pointer with h | h <;> simp only [ALIGN_SIZE, INDEX_node_rec_dsc, header, sizeof_rec_descriptor_t, h] <;> omega

theorem INDEX_node_rec_dsc_succ (idx : ℕ) : host.INDEX_node_rec_dsc (idx + 1) = host.INDEX_node_rec_dsc idx + 8 := by
  simp only [INDEX_node_rec_dsc, sizeof_rec_descriptor_t]
  omega

/-- The descriptors of records of these lengths, the first of which is at an offset. -/
def lay : ℕ → List ℕ → List rec_descriptor_t
  | _, [] => []
  | offset, len :: lens => ⟨offset, len⟩ :: lay (offset + host.ALIGN_LEN len) lens

variable {host}

@[simp]
theorem length_lay (offset : ℕ) (lens : List ℕ) : (host.lay offset lens).length = lens.length := by
  induction lens generalizing offset with
  | nil => rfl
  | cons len lens ih => simp [lay, ih]

theorem lay_append (offset : ℕ) (left right : List ℕ) :
    host.lay offset (left ++ right) = host.lay offset left ++ host.lay (offset + padded host.ALIGN_SIZE left) right := by
  induction left generalizing offset with
  | nil => simp [lay]
  | cons len left ih => simp [lay, ih, ALIGN_LEN, Nat.add_assoc]

theorem map_lay {f : rec_descriptor_t → rec_descriptor_t} {offset offset' : ℕ} {lens : List ℕ}
    (hf : ∀ k len, f ⟨offset + k, len⟩ = ⟨offset' + k, len⟩) : (host.lay offset lens).map f = host.lay offset' lens := by
  induction lens generalizing offset offset' with
  | nil => rfl
  | cons len lens ih =>
    have hrest : (host.lay (offset + host.ALIGN_LEN len) lens).map f = host.lay (offset' + host.ALIGN_LEN len) lens :=
      ih fun k l => by rw [Nat.add_assoc, hf, Nat.add_assoc]
    have hfirst : f ⟨offset, len⟩ = ⟨offset', len⟩ := hf 0 len
    rw [lay, List.map_cons, hfirst, hrest, lay]

theorem getD_lay {offset len : ℕ} {left right : List ℕ} :
    (host.lay offset (left ++ len :: right)).getD left.length ⟨0, 0⟩ = ⟨offset + padded host.ALIGN_SIZE left, len⟩ := by
  simp [lay_append, lay, List.getD_eq_getElem?_getD]

end Host

abbrev lengths (recs : List (List Byte)) : List ℕ := recs.map List.length

/-- The bytes a bucket needs for these records, with the descriptors and the padding between them. -/
def Host.needs (host : Host) (recs : List (List Byte)) : ℕ :=
  host.INDEX_node_rec_dsc recs.length + span host.ALIGN_SIZE (lengths recs)

/-- The bucket holds these records, one behind the other from the end of the descriptors on. -/
structure node_header_t.Holds (host : Host) (bkt : node_header_t) (recs : List (List Byte)) : Prop where
  descriptors : bkt.node_rec_dsc = host.lay (host.INDEX_node_rec_dsc recs.length) (lengths recs)
  stored : Stored host.ALIGN_SIZE bkt.room (host.INDEX_node_rec_dsc recs.length) recs

namespace Stored

variable {host : Host} {room : Memory}

theorem map_read {offset : ℕ} {recs : List (List Byte)} (h : Stored host.ALIGN_SIZE room offset recs) :
    (host.lay offset (lengths recs)).map (fun d => room.read d.rec_offset d.rec_length) = recs := by
  induction recs generalizing offset with
  | nil => rfl
  | cons r recs ih =>
    obtain ⟨hr, hrecs⟩ := h
    rw [lengths, List.map_cons, Host.lay, List.map_cons, hr]
    exact congrArg _ (ih hrecs)

end Stored

namespace node_header_t.Holds

variable {host : Host} {bkt : node_header_t} {recs : List (List Byte)} (h : bkt.Holds host recs)
include h

theorem node_count_eq : bkt.node_count = recs.length := by simp [node_count, h.descriptors]

theorem records_eq : bkt.records = recs := by
  rw [records, h.descriptors]
  exact Stored.map_read h.stored

theorem dsc_eq {left right : List (List Byte)} {r : List Byte} (hrecs : recs = left ++ r :: right) :
    bkt.dsc left.length =
      ⟨host.INDEX_node_rec_dsc recs.length + padded host.ALIGN_SIZE (lengths left), r.length⟩ := by
  have hlens : lengths recs = lengths left ++ r.length :: lengths right := by simp [hrecs]
  have hleft : left.length = (lengths left).length := by simp
  rw [dsc, h.descriptors, hlens, hleft, Host.getD_lay]

theorem finish_eq {left right : List (List Byte)} (hne : left ≠ []) (hrecs : recs = left ++ right) :
    bkt.finish (left.length - 1) = host.INDEX_node_rec_dsc recs.length + span host.ALIGN_SIZE (lengths left) := by
  obtain ⟨init, last, rfl⟩ : ∃ init last, left = init ++ [last] :=
    ⟨left.dropLast, left.getLast hne, (List.dropLast_append_getLast hne).symm⟩
  have hdsc := h.dsc_eq (show recs = init ++ last :: right by simp [hrecs])
  have hlen : (init ++ [last]).length - 1 = init.length := by simp
  have hlens : lengths (init ++ [last]) = lengths init ++ [last.length] := by simp
  rw [finish, hlen, hdsc, hlens, span_append_singleton, Nat.add_assoc]

theorem offset_zero (hne : recs ≠ []) : (bkt.dsc 0).rec_offset = host.INDEX_node_rec_dsc recs.length := by
  obtain ⟨r, rest, rfl⟩ := List.exists_cons_of_ne_nil hne
  have hdsc := h.dsc_eq (show r :: rest = [] ++ r :: rest from rfl)
  rw [List.length_nil] at hdsc
  simp [hdsc]

end node_header_t.Holds

section MakeRoom

variable {host : Host} {bkt bkt' : node_header_t} {left right : List (List Byte)} {len : ℕ}

theorem mapIdx_around {α β : Type*} {f : ℕ → α → β} {g h : α → β} {before after : List α} {x : α}
    (hbefore : ∀ i < before.length, ∀ y, f i y = g y) (hafter : ∀ i > before.length, ∀ y, f i y = h y) :
    (before ++ x :: after).mapIdx f = before.map g ++ f before.length x :: after.map h := by
  simp only [List.mapIdx_append, List.mapIdx_cons, Nat.zero_add]
  congr 1
  · refine List.ext_getElem (by simp) fun i hi hi' => ?_
    rw [List.getElem_mapIdx, List.getElem_map, hbefore i (by simpa using hi)]
  · congr 1
    refine List.ext_getElem (by simp) fun i hi hi' => ?_
    rw [List.getElem_mapIdx, List.getElem_map, hafter _ (by omega)]

theorem mapIdx_behind {α : Type*} {f : α → α} {before after : List α} {x : α} {pos : ℕ} (hpos : before.length = pos) :
    (before ++ x :: after).mapIdx (fun i y => if pos < i then f y else y) = before ++ x :: after.map f := by
  subst hpos
  have hmap : (before ++ x :: after).mapIdx (fun i y => if before.length < i then f y else y) = before.map id ++ _ :=
    mapIdx_around (fun i hi y => if_neg (Nat.not_lt.mpr hi.le)) fun i hi y => if_pos hi
  rw [hmap, if_neg (lt_irrefl _), List.map_id]

theorem made_descriptors {bkt : node_header_t} {room : Memory} {before after : List rec_descriptor_t} {d : rec_descriptor_t}
    {pos move_len : ℕ} (hpos : before.length = pos) :
    (made bkt (before ++ d :: after) room pos move_len).node_rec_dsc =
      before.map (fun d => ⟨d.rec_offset + 8, d.rec_length⟩) ++ ⟨d.rec_offset + 8, d.rec_length⟩ ::
        after.map fun d => ⟨d.rec_offset + (8 + move_len), d.rec_length⟩ := by
  subst hpos
  have hmap : (made bkt (before ++ d :: after) room before.length move_len).node_rec_dsc = _ :=
    mapIdx_around (fun i hi y => if_pos hi.le) fun i hi y => if_neg (by omega)
  rw [hmap, if_pos le_rfl]
  rfl

/-- The bucket has room for a record of a length between these records. -/
structure HasRoom (host : Host) (bkt : node_header_t) (left : List (List Byte)) (len : ℕ) (right : List (List Byte)) : Prop where
  descriptors : bkt.node_rec_dsc =
    host.lay (host.INDEX_node_rec_dsc (left.length + right.length + 1)) (lengths left ++ len :: lengths right)
  before : Stored host.ALIGN_SIZE bkt.room (host.INDEX_node_rec_dsc (left.length + right.length + 1)) left
  behind : Stored host.ALIGN_SIZE bkt.room
    (host.INDEX_node_rec_dsc (left.length + right.length + 1) + padded host.ALIGN_SIZE (lengths left) + host.ALIGN_LEN len) right

theorem HasRoom.of_made (h : bkt.Holds host (left ++ right)) {room : Memory}
    (hleft : ∀ k < span host.ALIGN_SIZE (lengths left), room (host.INDEX_node_rec_dsc (left.length + right.length + 1) + k) =
      bkt.room (host.INDEX_node_rec_dsc (left.length + right.length) + k))
    (hright : ∀ k < span host.ALIGN_SIZE (lengths right),
      room (host.INDEX_node_rec_dsc (left.length + right.length + 1) + padded host.ALIGN_SIZE (lengths left) +
        host.ALIGN_LEN len + k) =
      bkt.room (host.INDEX_node_rec_dsc (left.length + right.length) + padded host.ALIGN_SIZE (lengths left) + k))
    {move_len : ℕ} (hmove : right ≠ [] → move_len = host.ALIGN_LEN len) :
    HasRoom host (made bkt (bkt.node_rec_dsc.take left.length ++
      ⟨host.INDEX_node_rec_dsc (left.length + right.length) + padded host.ALIGN_SIZE (lengths left), len⟩ ::
        bkt.node_rec_dsc.drop left.length) room left.length move_len) left len right := by
  have hcount : (left ++ right).length = left.length + right.length := List.length_append
  have hstored := h.stored
  have hdsc := h.descriptors
  rw [hcount] at hstored hdsc
  obtain ⟨hstoredLeft, hstoredRight⟩ := Stored.append_iff.mp hstored
  have hlay : bkt.node_rec_dsc = host.lay (host.INDEX_node_rec_dsc (left.length + right.length)) (lengths left) ++
      host.lay (host.INDEX_node_rec_dsc (left.length + right.length) + padded host.ALIGN_SIZE (lengths left))
        (lengths right) := by
    rw [hdsc, lengths, List.map_append, Host.lay_append]
  have hlen : left.length = (host.lay (host.INDEX_node_rec_dsc (left.length + right.length)) (lengths left)).length := by simp
  have htake : bkt.node_rec_dsc.take left.length =
      host.lay (host.INDEX_node_rec_dsc (left.length + right.length)) (lengths left) := by
    rw [hlay, List.take_left' hlen.symm]
  have hdrop : bkt.node_rec_dsc.drop left.length =
      host.lay (host.INDEX_node_rec_dsc (left.length + right.length) + padded host.ALIGN_SIZE (lengths left))
        (lengths right) := by
    rw [hlay, List.drop_left' hlen.symm]
  refine ⟨?_, hstoredLeft.moved host.ALIGN_SIZE_pos hleft, hstoredRight.moved host.ALIGN_SIZE_pos hright⟩
  rw [made_descriptors (by simp [htake]), htake, hdrop, Host.lay_append, Host.lay, Host.INDEX_node_rec_dsc_succ,
    Host.map_lay fun k _ => by rw [Nat.add_right_comm]]
  have hbehind : (host.lay (host.INDEX_node_rec_dsc (left.length + right.length) + padded host.ALIGN_SIZE (lengths left))
      (lengths right)).map (fun d => (⟨d.rec_offset + (8 + move_len), d.rec_length⟩ : rec_descriptor_t)) =
      host.lay (host.INDEX_node_rec_dsc (left.length + right.length) + 8 + padded host.ALIGN_SIZE (lengths left) +
        host.ALIGN_LEN len) (lengths right) := by
    rcases eq_or_ne right [] with rfl | hne
    · rfl
    · refine Host.map_lay fun k _ => ?_
      simp only [hmove hne]
      congr 1
      omega
  rw [hbehind, Nat.add_right_comm _ (padded _ _) 8]

theorem make_room_middle (h : bkt.Holds host (left ++ right)) (hright : right ≠ [])
    (hmade : make_room host bkt left.length len = .ok bkt') : HasRoom host bkt' left len right := by
  obtain ⟨r, rest, rfl⟩ := List.exists_cons_of_ne_nil hright
  have hcount : bkt.node_count = left.length + (r :: rest).length := by rw [h.node_count_eq, List.length_append]
  have hlt : left.length < bkt.node_count := by simp [hcount]
  have hoffset : (bkt.dsc left.length).rec_offset =
      host.INDEX_node_rec_dsc (left.length + (r :: rest).length) + padded host.ALIGN_SIZE (lengths left) := by
    rw [h.dsc_eq rfl, List.length_append]
  have hfirst : (bkt.dsc 0).rec_offset = host.INDEX_node_rec_dsc (left.length + (r :: rest).length) := by
    rw [h.offset_zero (by simp), List.length_append]
  have hlast : bkt.finish (bkt.node_count - 1) = host.INDEX_node_rec_dsc (left.length + (r :: rest).length) +
      padded host.ALIGN_SIZE (lengths left) + span host.ALIGN_SIZE (lengths (r :: rest)) := by
    have hfinish := h.finish_eq (List.append_ne_nil_of_right_ne_nil left (List.cons_ne_nil r rest)) (List.append_nil _).symm
    rw [h.node_count_eq, hfinish, List.length_append, lengths, List.map_append, span_append _ (by simp), Nat.add_assoc]
  have hspan := span_le_padded host.ALIGN_SIZE_pos (lengths left)
  have hlen := le_roundUp host.ALIGN_SIZE_pos len
  simp only [make_room, if_pos hlt] at hmade
  split at hmade
  · cases hmade
  · obtain rfl := Except.ok.inj hmade
    rw [hoffset, hfirst, hlast, hcount]
    refine HasRoom.of_made h (fun k hk => ?_) (fun k hk => ?_) fun _ => rfl
    · rw [Nat.add_sub_cancel_left, Memory.move_inside _ (by omega), Memory.move_outside _ (by omega)]
    · rw [Host.INDEX_node_rec_dsc_succ, Memory.move_outside _ (by omega)]
      have hto : host.INDEX_node_rec_dsc (left.length + (r :: rest).length) + 8 + padded host.ALIGN_SIZE (lengths left) +
          host.ALIGN_LEN len + k = host.INDEX_node_rec_dsc (left.length + (r :: rest).length) +
            padded host.ALIGN_SIZE (lengths left) + (sizeof_rec_descriptor_t + host.ALIGN_LEN len) + k := by
        simp only [sizeof_rec_descriptor_t]
        omega
      rw [hto, Memory.move_inside _ (by omega)]

theorem make_room_end (h : bkt.Holds host left) (hleft : left ≠ [])
    (hmade : make_room host bkt left.length len = .ok bkt') : HasRoom host bkt' left len [] := by
  have hcount := h.node_count_eq
  have hpos : left.length ≠ 0 := by simpa using hleft
  have hspan : span host.ALIGN_SIZE (lengths left) ≤ padded host.ALIGN_SIZE (lengths left) :=
    span_le_padded host.ALIGN_SIZE_pos _
  have hlast := h.finish_eq hleft (List.append_nil left).symm
  have hnext : host.ALIGN_LEN (host.INDEX_node_rec_dsc left.length + span host.ALIGN_SIZE (lengths left)) =
      host.INDEX_node_rec_dsc left.length + padded host.ALIGN_SIZE (lengths left) := by
    rw [Host.ALIGN_LEN, roundUp_add host.ALIGN_SIZE_pos (host.dvd_INDEX_node_rec_dsc _),
      padded_eq_roundUp_span host.ALIGN_SIZE_pos (by simpa using hleft)]
  simp only [make_room, hcount, lt_irrefl, if_false, if_pos hpos, hlast, hnext, h.offset_zero hleft] at hmade
  split at hmade
  · cases hmade
  · obtain rfl := Except.ok.inj hmade
    have hdscs : bkt.node_rec_dsc ++
        [⟨host.INDEX_node_rec_dsc left.length + padded host.ALIGN_SIZE (lengths left), len⟩] =
        bkt.node_rec_dsc.take left.length ++
          ⟨host.INDEX_node_rec_dsc left.length + padded host.ALIGN_SIZE (lengths left), len⟩ ::
            bkt.node_rec_dsc.drop left.length := by
      have hle : bkt.node_rec_dsc.length ≤ left.length := hcount.le
      rw [List.take_of_length_le hle, List.drop_of_length_le hle]
    rw [hdscs]
    refine HasRoom.of_made (show bkt.Holds host (left ++ []) by rwa [List.append_nil]) (fun k hk => ?_) (fun k hk => absurd hk (by simp [span]))
      fun hne => absurd rfl hne
    rw [Nat.add_sub_cancel_left]
    exact Memory.move_inside _ hk

theorem make_room_empty (h : bkt.Holds host []) (hmade : make_room host bkt 0 len = .ok bkt') :
    HasRoom host bkt' [] len [] := by
  have hcount := h.node_count_eq
  simp only [make_room, hcount, List.length_nil, lt_irrefl, if_false, ne_eq, not_true] at hmade
  split at hmade
  · cases hmade
  · obtain rfl := Except.ok.inj hmade
    exact ⟨rfl, trivial, trivial⟩

theorem make_room_spec (h : bkt.Holds host (left ++ right)) (hmade : make_room host bkt left.length len = .ok bkt') :
    HasRoom host bkt' left len right := by
  rcases eq_or_ne right [] with rfl | hright
  · rw [List.append_nil] at h
    rcases eq_or_ne left [] with rfl | hleft
    · exact make_room_empty h hmade
    · exact make_room_end h hleft hmade
  · exact make_room_middle h hright hmade

theorem make_room_empty_error {space : ℕ} (h : bkt.Holds host []) (herror : make_room host bkt 0 len = .error space) :
    bkt.node_space < sizeof_rec_descriptor_t + len := by
  have hcount := h.node_count_eq
  simp only [make_room, hcount, List.length_nil, lt_irrefl, if_false, ne_eq, not_true] at herror
  split at herror
  · assumption
  · cases herror

theorem HasRoom.filled {r : List Byte} (h : HasRoom host bkt left r.length right) {room : Memory}
    (hsame : ∀ a, a < (bkt.dsc left.length).rec_offset ∨ (bkt.dsc left.length).rec_offset + r.length ≤ a →
      room a = bkt.room a)
    (hread : room.read (bkt.dsc left.length).rec_offset r.length = r) :
    node_header_t.Holds host { bkt with room := room } (left ++ r :: right) := by
  have hlen : (left ++ r :: right).length = left.length + right.length + 1 := by simp [Nat.add_assoc]
  have hoffset : (bkt.dsc left.length).rec_offset =
      host.INDEX_node_rec_dsc (left.length + right.length + 1) + padded host.ALIGN_SIZE (lengths left) := by
    have hleft : left.length = (lengths left).length := by simp
    rw [node_header_t.dsc, h.descriptors, hleft, Host.getD_lay, ← hleft]
  have hspan := span_le_padded host.ALIGN_SIZE_pos (lengths left)
  have hle := le_roundUp host.ALIGN_SIZE_pos r.length
  rw [hoffset] at hsame hread
  refine ⟨by simp [h.descriptors, hlen], ?_⟩
  rw [hlen]
  have hbefore : ∀ k < span host.ALIGN_SIZE (lengths left), room (host.INDEX_node_rec_dsc (left.length + right.length + 1) + k) =
      bkt.room (host.INDEX_node_rec_dsc (left.length + right.length + 1) + k) := fun k hk => hsame _ (.inl (by omega))
  have hbehind : Stored host.ALIGN_SIZE room (host.INDEX_node_rec_dsc (left.length + right.length + 1) +
      padded host.ALIGN_SIZE (lengths left) + host.ALIGN_LEN r.length) right :=
    h.behind.congr host.ALIGN_SIZE_pos fun k _ => hsame _ (.inr (by
      have halign : host.ALIGN_LEN r.length = roundUp host.ALIGN_SIZE r.length := rfl
      omega))
  exact Stored.append_iff.mpr ⟨h.before.congr host.ALIGN_SIZE_pos hbefore, hread, hbehind⟩

theorem insert_record_holds {key_p : entry_key_t host} {set_p : DBSet_t host} (h : bkt.Holds host (left ++ right))
    (hok : insert_record host bkt left.length key_p set_p = .ok bkt') :
    bkt'.Holds host (left ++ (key_p.image ++ set_p.image) :: right) := by
  obtain ⟨made, hmade, rfl⟩ : ∃ made, make_room host bkt left.length (key_p.image.length + set_p.image.length) = .ok made ∧
      _ = bkt' := by
    cases hmade : make_room host bkt left.length (key_p.image.length + set_p.image.length) with
    | error => simp [insert_record, hmade, Except.map] at hok
    | ok made => exact ⟨made, rfl, by simpa [insert_record, hmade, Except.map] using hok⟩
  have hroom := make_room_spec h hmade
  rw [← List.length_append] at hroom
  refine hroom.filled (fun a ha => ?_) ?_
  · rw [List.length_append] at ha
    rw [Memory.write_outside _ (by omega), Memory.write_outside _ (by omega)]
  · refine (Memory.read_eq_append_iff _).mpr ⟨?_, Memory.read_write_same _ _ _⟩
    rw [Memory.read_write_outside _ (.inl le_rfl), Memory.read_write_same]

theorem insert_index_holds {src_p : List Byte} {down_p : Address} (h : bkt.Holds host (left ++ right))
    (hsrc : host.sizeof_byte_p ≤ src_p.length) (hok : insert_index host bkt left.length src_p down_p = .ok bkt') :
    bkt'.Holds host
      (left ++ (host.order.store host.sizeof_byte_p down_p ++ src_p.drop host.sizeof_byte_p) :: right) := by
  obtain ⟨made, hmade, rfl⟩ : ∃ made, make_room host bkt left.length src_p.length = .ok made ∧ _ = bkt' := by
    cases hmade : make_room host bkt left.length src_p.length with
    | error => simp [insert_index, hmade, Except.map] at hok
    | ok made => exact ⟨made, rfl, by simpa [insert_index, hmade, Except.map] using hok⟩
  have hroom := make_room_spec h hmade
  have hpointer : (host.order.store host.sizeof_byte_p down_p).length = host.sizeof_byte_p := by simp
  have hlen : (host.order.store host.sizeof_byte_p down_p ++ src_p.drop host.sizeof_byte_p).length = src_p.length := by
    rw [List.length_append, hpointer, List.length_drop, Nat.add_sub_cancel' hsrc]
  have hrest : (made.room.write (made.dsc left.length).rec_offset src_p).read
      ((made.dsc left.length).rec_offset + host.sizeof_byte_p) (src_p.length - host.sizeof_byte_p) =
      src_p.drop host.sizeof_byte_p := by
    rw [← Memory.drop_read _ hsrc, Memory.read_write_same]
  rw [← hlen] at hroom
  refine hroom.filled (fun a ha => ?_) ((Memory.read_eq_append_iff _).mpr ⟨Memory.read_write_same _ _ _, ?_⟩)
  · rw [hlen] at ha
    rw [Memory.write_outside _ (by omega), Memory.write_outside _ (by omega)]
  · rw [hpointer, List.length_drop, Memory.read_write_outside _ (.inr (by simp)), hrest]

end MakeRoom

section Replace

variable {host : Host} {bkt bkt' : node_header_t} {left right : List (List Byte)} {key_p : entry_key_t host}
  {set_p new_data_p : DBSet_t host}

theorem Host.ALIGN_INT_sub (m n : ℕ) :
    host.ALIGN_INT ((host.ALIGN_LEN m : ℤ) - host.ALIGN_LEN n) = (host.ALIGN_LEN m : ℤ) - host.ALIGN_LEN n := by
  have hpos := host.ALIGN_SIZE_pos
  obtain ⟨i, hi⟩ := dvd_roundUp host.ALIGN_SIZE m
  obtain ⟨j, hj⟩ := dvd_roundUp host.ALIGN_SIZE n
  have hsub : (host.ALIGN_LEN m : ℤ) - host.ALIGN_LEN n = host.ALIGN_SIZE * ((i : ℤ) - j) := by
    rw [Host.ALIGN_LEN, Host.ALIGN_LEN, hi, hj]
    push_cast
    ring
  have hdiv : (host.ALIGN_SIZE * ((i : ℤ) - j) + (host.ALIGN_SIZE - 1)) / host.ALIGN_SIZE = (i : ℤ) - j := by
    rw [Int.mul_add_ediv_left _ _ (by omega), Int.ediv_eq_zero_of_lt (by omega) (by omega), add_zero]
  rw [hsub, Host.ALIGN_INT, hdiv, mul_comm]

variable (key_p set_p) in
theorem ALIGN_LEN_record :
    host.ALIGN_LEN (key_p.image ++ set_p.image).length = key_p.image.length + host.ALIGN_LEN set_p.image.length := by
  rw [List.length_append]
  exact roundUp_add host.ALIGN_SIZE_pos key_p.aligned _

theorem loads_of_stored {offset : ℕ} {room : Memory}
    (hrec : room.read offset (key_p.image ++ set_p.image).length = key_p.image ++ set_p.image) :
    host.order.load (room.read offset 2) = key_p.image.length ∧
      host.order.load (room.read (offset + key_p.image.length) 4) = set_p.image.length := by
  obtain ⟨hkey, hset⟩ := (Memory.read_eq_append_iff _).mp hrec
  rw [← Memory.take_read _ key_p.two_le, hkey, ← Memory.take_read _ set_p.four_le, hset]
  exact ⟨key_p.key_length, set_p.ds_setl⟩

variable (set_p) in
theorem replaced_holds {offset : ℕ} {room : Memory} {dscs : List rec_descriptor_t} (hoffset : offset =
      host.INDEX_node_rec_dsc (left.length + right.length + 1) + padded host.ALIGN_SIZE (lengths left))
    (hdscs : dscs = host.lay (host.INDEX_node_rec_dsc (left.length + right.length + 1)) (lengths left) ++
      ⟨offset, (key_p.image ++ set_p.image).length⟩ ::
        host.lay (offset + host.ALIGN_LEN (key_p.image ++ new_data_p.image).length) (lengths right))
    (hbefore : Stored host.ALIGN_SIZE room (host.INDEX_node_rec_dsc (left.length + right.length + 1)) left)
    (hkey : room.read offset key_p.image.length = key_p.image)
    (hbehind : Stored host.ALIGN_SIZE room
      (offset + host.ALIGN_LEN (key_p.image ++ new_data_p.image).length) right) (space : ℕ) :
    node_header_t.Holds host { bkt with
      room := room.write (offset + key_p.image.length) new_data_p.image
      node_rec_dsc := dscs.set left.length ⟨offset, key_p.image.length + new_data_p.image.length⟩
      node_space := space } (left ++ (key_p.image ++ new_data_p.image) :: right) := by
  have hlen : (left ++ (key_p.image ++ new_data_p.image) :: right).length = left.length + right.length + 1 := by
    simp [Nat.add_assoc]
  have hspan := span_le_padded host.ALIGN_SIZE_pos (lengths left)
  have halign : (key_p.image ++ new_data_p.image).length ≤ host.ALIGN_LEN (key_p.image ++ new_data_p.image).length :=
    le_roundUp host.ALIGN_SIZE_pos _
  rw [List.length_append, Host.ALIGN_LEN, ← List.length_append] at halign
  have hsum : (key_p.image ++ new_data_p.image).length = _ := List.length_append
  refine ⟨?_, ?_⟩
  · have hset : ∀ d : rec_descriptor_t, dscs.set left.length d =
        host.lay (host.INDEX_node_rec_dsc (left.length + right.length + 1)) (lengths left) ++ d ::
          host.lay (offset + host.ALIGN_LEN (key_p.image ++ new_data_p.image).length) (lengths right) := fun d => by
      rw [hdscs, List.set_append_right _ _ (by simp), Host.length_lay, List.length_map, Nat.sub_self, List.set_cons_zero]
    have hlens : lengths (left ++ (key_p.image ++ new_data_p.image) :: right) =
        lengths left ++ (key_p.image ++ new_data_p.image).length :: lengths right := by simp
    rw [hset, hlen, hlens, Host.lay_append, Host.lay, ← hoffset, List.length_append]
  · rw [hlen]
    have hsame : ∀ k < span host.ALIGN_SIZE (lengths left),
        room.write (offset + key_p.image.length) new_data_p.image
          (host.INDEX_node_rec_dsc (left.length + right.length + 1) + k) =
        room (host.INDEX_node_rec_dsc (left.length + right.length + 1) + k) :=
      fun k hk => Memory.write_outside _ (.inl (by omega))
    refine Stored.append_iff.mpr ⟨hbefore.congr host.ALIGN_SIZE_pos hsame, ?_⟩
    rw [← hoffset]
    refine ⟨(Memory.read_eq_append_iff _).mpr ⟨?_, Memory.read_write_same _ _ _⟩, ?_⟩
    · rw [Memory.read_write_outside _ (.inl le_rfl), hkey]
    · exact hbehind.congr host.ALIGN_SIZE_pos fun k _ => Memory.write_outside _ (.inr (by omega))

theorem replace_record_holds (h : bkt.Holds host (left ++ (key_p.image ++ set_p.image) :: right))
    (hok : replace_record host bkt left.length new_data_p = .ok bkt') :
    bkt'.Holds host (left ++ (key_p.image ++ new_data_p.image) :: right) := by
  obtain ⟨hbefore, hrec, hbehind⟩ := Stored.append_iff.mp h.stored
  have hdsc := h.dsc_eq rfl
  have hcount := h.node_count_eq
  have hdscs := h.descriptors
  obtain ⟨hkey_length, hds_setl⟩ := loads_of_stored hrec
  obtain ⟨hkey, -⟩ := (Memory.read_eq_append_iff _).mp hrec
  have hlen : (left ++ (key_p.image ++ set_p.image) :: right).length = left.length + right.length + 1 := by
    simp [Nat.add_assoc]
  have hlens : lengths (left ++ (key_p.image ++ set_p.image) :: right) =
      lengths left ++ (key_p.image ++ set_p.image).length :: lengths right := by simp
  rw [hlen] at hbefore hkey hbehind hdsc hcount hdscs hkey_length hds_setl
  rw [hlens, Host.lay_append, Host.lay] at hdscs
  obtain ⟨offset, hoffset⟩ : ∃ offset, offset =
    host.INDEX_node_rec_dsc (left.length + right.length + 1) + padded host.ALIGN_SIZE (lengths left) := ⟨_, rfl⟩
  rw [← hoffset] at hkey hbehind hdsc hdscs hkey_length hds_setl
  rcases eq_or_ne right [] with rfl | hright
  · simp only [replace_record, hdsc, hcount, hkey_length, hds_setl, List.length_nil, Nat.add_zero, lt_irrefl, if_false] at hok
    split at hok
    · cases hok
    · obtain rfl := Except.ok.inj hok
      have hdscs : bkt.node_rec_dsc = _ ++ ⟨offset, (key_p.image ++ set_p.image).length⟩ ::
        host.lay (offset + host.ALIGN_LEN (key_p.image ++ new_data_p.image).length) (lengths []) := hdscs
      exact replaced_holds set_p hoffset hdscs hbefore hkey trivial _
  · obtain ⟨r, rest, rfl⟩ := List.exists_cons_of_ne_nil hright
    have hlt : left.length + 1 < left.length + (r :: rest).length + 1 := by simp
    simp only [replace_record, hdsc, hcount, hkey_length, hds_setl, if_pos hlt] at hok
    split at hok
    · cases hok
    · obtain rfl := Except.ok.inj hok
      have hstart : (bkt.dsc (left.length + 1)).rec_offset =
          offset + host.ALIGN_LEN (key_p.image ++ set_p.image).length := by
        have hnext := h.dsc_eq (List.append_cons left (key_p.image ++ set_p.image) (r :: rest))
        rw [hlen] at hnext
        simp only [List.length_append, List.length_singleton, lengths, List.map_append, List.map_singleton, padded_append,
          padded_cons, padded_nil] at hnext
        simp [hnext, hoffset, Host.ALIGN_LEN, Nat.add_assoc]
      have hlast : bkt.finish (left.length + (r :: rest).length + 1 - 1) =
          offset + host.ALIGN_LEN (key_p.image ++ set_p.image).length + span host.ALIGN_SIZE (lengths (r :: rest)) := by
        have hfinish := h.finish_eq (List.append_ne_nil_of_right_ne_nil left (List.cons_ne_nil (key_p.image ++ set_p.image) (r :: rest)))
          (List.append_nil _).symm
        rw [hlen, hlens, span_append _ (by simp), span_cons _ (by simp)] at hfinish
        rw [hfinish, hoffset, Host.ALIGN_LEN]
        omega
      have hto : ∀ k : ℕ, ((offset + host.ALIGN_LEN (key_p.image ++ set_p.image).length + k : ℕ) +
          host.ALIGN_INT ((host.ALIGN_LEN new_data_p.image.length : ℤ) - host.ALIGN_LEN set_p.image.length)).toNat =
          offset + host.ALIGN_LEN (key_p.image ++ new_data_p.image).length + k := fun k => by
        rw [Host.ALIGN_INT_sub, ALIGN_LEN_record, ALIGN_LEN_record]
        omega
      have hset := ALIGN_LEN_record key_p set_p
      have hnew := ALIGN_LEN_record key_p new_data_p
      have hspan := span_le_padded host.ALIGN_SIZE_pos (lengths left)
      have hstart_to := hto 0
      rw [Nat.add_zero, Nat.add_zero] at hstart_to
      rw [hstart, hlast, hstart_to, Nat.add_sub_cancel_left]
      refine replaced_holds set_p hoffset ?_ ?_ ?_ ?_ _
      · rw [hdscs]
        rw [mapIdx_behind (by simp), Host.map_lay fun k l => by rw [hto]]
      · have hbelow : ∀ k < span host.ALIGN_SIZE (lengths left), bkt.room.move (offset +
            host.ALIGN_LEN (key_p.image ++ set_p.image).length) (offset + host.ALIGN_LEN (key_p.image ++ new_data_p.image).length)
            (span host.ALIGN_SIZE (lengths (r :: rest))) (host.INDEX_node_rec_dsc (left.length + (r :: rest).length + 1) + k) =
            bkt.room (host.INDEX_node_rec_dsc (left.length + (r :: rest).length + 1) + k) :=
          fun k hk => Memory.move_outside _ (.inl (by omega))
        exact hbefore.congr host.ALIGN_SIZE_pos hbelow
      · rw [Memory.read_congr fun k hk => Memory.move_outside _ (.inl (by omega)), hkey]
      · refine hbehind.moved host.ALIGN_SIZE_pos fun k hk => ?_
        rw [Memory.move_inside _ hk]
        rfl

theorem replace_record_alone_error {space : ℕ} (h : bkt.Holds host [key_p.image ++ set_p.image])
    (herror : replace_record host bkt 0 new_data_p = .error space) :
    bkt.node_space + set_p.image.length < new_data_p.image.length := by
  have hdsc := h.dsc_eq (List.nil_append [key_p.image ++ set_p.image]).symm
  have hcount := h.node_count_eq
  have hrec := h.stored.1
  obtain ⟨hkey_length, hds_setl⟩ := loads_of_stored hrec
  simp only [List.length_nil, List.length_singleton, lengths, List.map_nil, padded_nil, Nat.add_zero] at hdsc hcount hkey_length hds_setl
  simp only [replace_record, hdsc, hcount, hkey_length, hds_setl, Nat.zero_add, lt_irrefl, if_false] at herror
  split at herror
  · next hshort => omega
  · cases herror

end Replace

end dce.cds.btree
