import Dce.Lib.Layout

open lib

namespace dce.cds.btree

def BLOCK_SIZE : ℕ := 512

def DATA_BUCKET_BLOCKS : ℕ := 16

def INDEX_BUCKET_BLOCKS : ℕ := 8

def MAX_BUCKET_BLOCKS : ℕ := DATA_BUCKET_BLOCKS

/-- A bucket's address; that of no bucket is `NULL`. -/
abbrev Address := ℕ

def NULL : Address := 0

/-- What differs from machine to machine. -/
structure Host where
  order : ByteOrder
  sizeof_byte_p : ℕ
  pointer : sizeof_byte_p = 4 ∨ sizeof_byte_p = 8

namespace Host

variable (host : Host)

def ALIGN_SIZE : ℕ := host.sizeof_byte_p

def ALIGN_LEN (n : ℕ) : ℕ := roundUp host.ALIGN_SIZE n

/-- `DIFF_bytes(bkt_p->node_rec_dsc, bkt_p)`. -/
def header : ℕ := 16 + 2 * host.sizeof_byte_p

end Host

structure rec_descriptor_t where
  rec_offset : ℕ
  rec_length : ℕ
  deriving DecidableEq, Repr

def rec_descriptor_t.adjusted (adjustment : ℕ) (d : rec_descriptor_t) : rec_descriptor_t :=
  { d with rec_offset := d.rec_offset - adjustment }

def sizeof_rec_descriptor_t : ℕ := 8

/-- The offset of a descriptor in its bucket: `DIFF_bytes(INDEX_node_rec_dsc(bkt_p, idx), bkt_p)`. -/
def Host.INDEX_node_rec_dsc (host : Host) (idx : ℕ) : ℕ := host.header + sizeof_rec_descriptor_t * idx

/-- The types of the buckets of records. -/
inductive NodeType where
  | DATA_BUCKET
  | INDEX_BUCKET
  | PSEUDO_BUCKET
  deriving DecidableEq, Repr

/-- `node_header_t`. The room behind the descriptors is read and written by offsets from the beginning of the bucket. -/
structure node_header_t where
  node_type : NodeType
  node_blocks : ℕ
  node_next_p : Address
  node_prev_p : Address
  node_space : ℕ
  node_rec_dsc : List rec_descriptor_t
  room : Memory

namespace node_header_t

variable (bkt : node_header_t)

def node_count : ℕ := bkt.node_rec_dsc.length

def dsc (idx : ℕ) : rec_descriptor_t := bkt.node_rec_dsc.getD idx ⟨0, 0⟩

def finish (idx : ℕ) : ℕ := (bkt.dsc idx).rec_offset + (bkt.dsc idx).rec_length

def records : List (List Byte) := bkt.node_rec_dsc.map fun d => bkt.room.read d.rec_offset d.rec_length

/-- What is left of `node_blocks*BLOCK_SIZE` behind the last record, in an unsigned word. -/
def spaceBehind (last : ℕ) : ℕ := (bkt.node_blocks * BLOCK_SIZE + 2 ^ 32 - last) % 2 ^ 32

end node_header_t

/-- `entry_key_t` as a data record begins with it: its own first field is its length. -/
structure entry_key_t (host : Host) where
  image : List Byte
  two_le : 2 ≤ image.length
  key_length : host.order.load (image.take 2) = image.length
  aligned : host.ALIGN_SIZE ∣ image.length

/-- `DBSet_t`, which begins with its length. -/
structure DBSet_t (host : Host) where
  image : List Byte
  four_le : 4 ≤ image.length
  ds_setl : host.order.load (image.take 4) = image.length

section Room

variable (host : Host) (bkt : node_header_t)

/-- The end of `make_room`: the offsets are adjusted for one more descriptor, those behind `pos` for the record too. -/
def made (dscs : List rec_descriptor_t) (room : Memory) (pos move_len : ℕ) : node_header_t :=
  let dscs := dscs.mapIdx fun i d =>
    if i ≤ pos then { d with rec_offset := d.rec_offset + sizeof_rec_descriptor_t }
    else { d with rec_offset := d.rec_offset + (sizeof_rec_descriptor_t + move_len) }
  let bkt := { bkt with node_rec_dsc := dscs, room := room }
  { bkt with node_space := bkt.spaceBehind (bkt.finish (bkt.node_count - 1)) }

/-- `make_room`. An error is the space that is missing. -/
def make_room (pos len : ℕ) : Except ℕ node_header_t :=
  let count := bkt.node_count
  if pos < count then
    -- keep everything aligned
    let move_len := host.ALIGN_LEN len
    let i := sizeof_rec_descriptor_t + move_len
    if bkt.node_space < i then .error (i - bkt.node_space)
    else
      let offset := (bkt.dsc pos).rec_offset
      let room := bkt.room.move offset (offset + (sizeof_rec_descriptor_t + move_len)) (bkt.finish (count - 1) - offset)
      -- the descriptors from `pos` on and the records before `pos` move on by one descriptor
      let room := room.move (host.INDEX_node_rec_dsc count) (host.INDEX_node_rec_dsc (count + 1))
        (offset - (bkt.dsc 0).rec_offset)
      .ok (made bkt (bkt.node_rec_dsc.take pos ++ ⟨offset, len⟩ :: bkt.node_rec_dsc.drop pos) room pos move_len)
  else if pos ≠ 0 then
    let last := bkt.finish (pos - 1)
    let i := sizeof_rec_descriptor_t + (host.ALIGN_LEN last - last) + len
    if bkt.node_space < i then .error (i - bkt.node_space)
    else
      let room := bkt.room.move (host.INDEX_node_rec_dsc count) (host.INDEX_node_rec_dsc (count + 1))
        (last - (bkt.dsc 0).rec_offset)
      .ok (made bkt (bkt.node_rec_dsc ++ [⟨host.ALIGN_LEN last, len⟩]) room pos len)
  else
    let i := sizeof_rec_descriptor_t + len
    if bkt.node_space < i then .error (i - bkt.node_space)
    else .ok (made bkt [⟨host.INDEX_node_rec_dsc 0, len⟩] bkt.room pos len)

/-- `insert_index`: the key `src_p` of `LEN_entry_key(src_p)` bytes, with `key_down_p` in its first field. -/
def insert_index (pos : ℕ) (src_p : List Byte) (down_p : Address) : Except ℕ node_header_t :=
  (make_room host bkt pos src_p.length).map fun bkt =>
    let dst_p := (bkt.dsc pos).rec_offset
    { bkt with room := (bkt.room.write dst_p src_p).write dst_p (host.order.store host.sizeof_byte_p down_p) }

def insert_record (pos : ℕ) (key_p : entry_key_t host) (set_p : DBSet_t host) : Except ℕ node_header_t :=
  (make_room host bkt pos (key_p.image.length + set_p.image.length)).map fun bkt =>
    let dst_p := (bkt.dsc pos).rec_offset
    { bkt with room := (bkt.room.write dst_p key_p.image).write (dst_p + key_p.image.length) set_p.image }

/-- `ALIGN_LEN` of an `int`. -/
def Host.ALIGN_INT (n : ℤ) : ℤ := (n + (host.ALIGN_SIZE - 1)) / host.ALIGN_SIZE * host.ALIGN_SIZE

/-- `replace_record`. An error is the space that is missing. -/
def replace_record (pos : ℕ) (new_data_p : DBSet_t host) : Except ℕ node_header_t :=
  let count := bkt.node_count
  let data_p := (bkt.dsc pos).rec_offset
  let key_length := host.order.load (bkt.room.read data_p 2)
  let set_p := data_p + key_length
  let i := host.order.load (bkt.room.read set_p 4)
  -- if not the last record, the entry is padded
  let padded := fun len => if pos + 1 < count then host.ALIGN_LEN len else len
  let shiftsize : ℤ := padded new_data_p.image.length - padded i
  if 0 < shiftsize ∧ (bkt.node_space : ℤ) < shiftsize then .error (shiftsize - bkt.node_space).toNat
  else
    let shifted :=
      if pos + 1 < count then
        let start_p := (bkt.dsc (pos + 1)).rec_offset
        let shiftsize := host.ALIGN_INT shiftsize
        { bkt with
          room := bkt.room.move start_p (start_p + shiftsize).toNat (bkt.finish (count - 1) - start_p)
          node_rec_dsc := bkt.node_rec_dsc.mapIdx fun i d =>
            if pos < i then { d with rec_offset := (d.rec_offset + shiftsize).toNat } else d }
      else bkt
    let written := { shifted with
      room := shifted.room.write set_p new_data_p.image
      node_rec_dsc := shifted.node_rec_dsc.set pos ⟨data_p, key_length + new_data_p.image.length⟩ }
    .ok { written with node_space := written.spaceBehind (written.finish (count - 1)) }

/-- The copy of a full bucket that `insert_data`, `replace_data` and `update_index` extend. -/
def extended (new_size : ℕ) : node_header_t :=
  { bkt with
    node_blocks := 0
    node_space := (bkt.node_space + new_size) % 2 ^ 32 }

end Room

section Split

variable (host : Host) (bkt : node_header_t)

/-- The locals of `split_points` and what its two pointers point to. -/
structure Points where
  point1 : ℕ
  point2 : ℕ
  point1_p : ℕ
  point2_p : ℕ

/-- The two-ended filling of two buckets. -/
structure Ends where
  bottom : ℕ
  bottom_len : ℕ
  top : ℕ
  top_len : ℕ

def Ends.left (max_size : ℕ) (e : Ends) : Ends :=
  let len := e.bottom_len + sizeof_rec_descriptor_t + (bkt.dsc e.bottom).rec_length
  if len < max_size then { e with bottom := e.bottom + 1, bottom_len := len } else e

/-- Try to get one for the right bucket. `top` is unsigned. -/
def Ends.right (max_size : ℕ) (e : Ends) : Ends :=
  let len := e.top_len + sizeof_rec_descriptor_t + (bkt.dsc e.top).rec_length
  if len < max_size then { e with top := (e.top + 2 ^ 32 - 1) % 2 ^ 32, top_len := len } else e

/-- The loop of `split_points` that finds the best position for two buckets, of at most `turns` turns. -/
def best_position (max_size : ℕ) : ℕ → Ends → Option ℕ
  | 0, _ => none
  | turns + 1, e =>
    let e := (e.left bkt max_size).right bkt max_size
    if e.top < e.bottom then some e.bottom else best_position max_size turns e

/-- The loops of `split_points` that fill one bucket from record `i` on, of at most `turns` turns: the first record that
does not fit, or `node_count`. -/
def fill_up (max_size : ℕ) : ℕ → ℕ → ℕ → ℕ
  | 0, i, _ => i
  | turns + 1, i, bottom_len =>
    let len := bottom_len + sizeof_rec_descriptor_t + (bkt.dsc i).rec_length
    if len < max_size then fill_up max_size turns (i + 1) len else i

/-- Will half fit in the first bucket, and the remaining in the second? -/
def halves_fit (max_size : ℕ) : Prop :=
  let count := bkt.node_count
  let middle := count / 2
  middle * sizeof_rec_descriptor_t + (bkt.dsc middle).rec_offset - (bkt.dsc 0).rec_offset < max_size ∧
    (count - middle) * sizeof_rec_descriptor_t + bkt.finish (count - 1) - (bkt.dsc middle).rec_offset < max_size

instance (max_size : ℕ) : Decidable (halves_fit bkt max_size) := instDecidableAnd

/-- Will the first third fit in the first bucket, the next third in the second and the remaining in the last? -/
def thirds_fit (max_size : ℕ) : Prop :=
  let count := bkt.node_count
  let bottom := count / 3
  let middle := bottom * 2
  bottom * sizeof_rec_descriptor_t + (bkt.dsc bottom).rec_offset - (bkt.dsc 0).rec_offset < max_size ∧
    (middle - bottom) * sizeof_rec_descriptor_t + (bkt.dsc middle).rec_offset - (bkt.dsc bottom).rec_offset < max_size ∧
    (count - middle) * sizeof_rec_descriptor_t + bkt.finish (count - 1) - (bkt.dsc middle).rec_offset < max_size

instance (max_size : ℕ) : Decidable (thirds_fit bkt max_size) := instDecidableAnd

def Points.leave_split_points (p : Points) : Points := { p with point1_p := p.point1, point2_p := p.point2 }

/-- `split_points`. The locals have no value at first, and neither has what the pointers point to. -/
def split_points (max_size : ℕ) (p : Points) : Points :=
  let count := bkt.node_count
  -- Remove overhead from bucket space
  let max_size := max_size - host.header
  if halves_fit bkt max_size then { p with point1 := count / 2, point2 := count / 2 }.leave_split_points
  else
    match best_position bkt max_size count ⟨0, 0, (count + 2 ^ 32 - 1) % 2 ^ 32, 0⟩ with
    | some bottom => { p with point1 := bottom, point2 := bottom }.leave_split_points
    | none =>
      -- Keys won't fit in 2 buckets
      if thirds_fit bkt max_size then { p with point1 := count / 3, point2 := count / 3 * 2 }.leave_split_points
      else
        -- Just fill them up
        let i := fill_up bkt max_size count 0 0
        if i < count then
          let p := { p with point1 := i }
          let j := fill_up bkt max_size (count - i) i 0
          -- here the pointer is written, and written again at the end
          if j < count then { p with point2_p := j }.leave_split_points else p.leave_split_points
        else p.leave_split_points

end Split

section Copy

variable (host : Host)

/-- `db_btree_copy_keys` into a new bucket of `size` blocks. There is no result where descriptors outside the bucket would be read, or where the copy would
run past the end of the new bucket and the assertion fail. -/
def db_btree_copy_keys (bkt newbkt : node_header_t) (size start_pos end_pos : ℕ) : Option node_header_t :=
  if start_pos < end_pos ∧ end_pos ≤ bkt.node_count then
    let count := end_pos - start_pos
    let start := (bkt.dsc start_pos).rec_offset
    let data_len := bkt.finish (end_pos - 1) - start
    let base := host.INDEX_node_rec_dsc count
    let adjustment := start - base
    if base + data_len ≤ size * BLOCK_SIZE then
      let newbkt := { newbkt with
        node_type := bkt.node_type
        node_blocks := size
        node_rec_dsc := ((bkt.node_rec_dsc.drop start_pos).take count).map (rec_descriptor_t.adjusted adjustment)
        room := newbkt.room.write base (bkt.room.read start data_len) }
      some { newbkt with node_space := newbkt.spaceBehind (newbkt.finish (count - 1)) }
    else none
  else none

/-- `dns_status_t` of a split. -/
inductive dns_status_t where
  | DNS_SUCCESS
  | DNS_NONSRESOURCES
  deriving DecidableEq, Repr

abbrev Buckets := Address → Option node_header_t

/-- `btree_prm_t`: of the parent's key, if there is one, only `key_down_p` is touched. -/
structure btree_prm_t where
  key_down_p : Option Address
  prm_index_p : Address
  prm_end_p : Address

/-- What `split_bucket` does to the parameters: the end is extended, and the last key of the bucket has changed. -/
def btree_prm_t.moved (prm : btree_prm_t) (bkt_p split2_bkt_p : Address) : btree_prm_t :=
  { prm with
    prm_end_p := if prm.prm_end_p = bkt_p then split2_bkt_p else prm.prm_end_p
    key_down_p := prm.key_down_p.map fun key_down_p => if key_down_p = bkt_p then split2_bkt_p else key_down_p }

namespace Buckets

variable (b : Buckets)

def put (p : Address) (bkt : node_header_t) : Buckets := Function.update b p (some bkt)

/-- `dns_free`. -/
def free (p : Address) : Buckets := Function.update b p none

def setNext (p next_p : Address) : Buckets :=
  Function.update b p ((b p).map fun bkt => { bkt with node_next_p := next_p })

def setPrev (p prev_p : Address) : Buckets :=
  Function.update b p ((b p).map fun bkt => { bkt with node_prev_p := prev_p })

/-- `node_next_p` of a bucket. -/
def next (p : Address) : Address := ((b p).map node_header_t.node_next_p).getD NULL

def LINK_AFTER (bkt_p newbkt_p : Address) : Buckets :=
  let next_p := b.next bkt_p
  let b := ((b.setNext newbkt_p next_p).setNext bkt_p newbkt_p).setPrev newbkt_p bkt_p
  if next_p ≠ NULL then b.setPrev next_p newbkt_p else b

end Buckets

/-- A bucket that `dns_malloc_perm` gives, which holds anything, or none. -/
abbrev Malloc := Option (Address × node_header_t)

/-- `split_bucket` of the expanded bucket into the one at `bkt_p` and the new ones. There is no result where a copy fails. -/
def split_bucket (b : Buckets) (prm : btree_prm_t) (expand_p bkt_p : Address) (malloc2 malloc1 : Malloc) (locals : Points) :
    Option (dns_status_t × Buckets × btree_prm_t) := do
  let expand ← b expand_p
  let bkt ← b bkt_p
  let size := bkt.node_blocks
  let points := split_points host expand (size * BLOCK_SIZE) locals
  let split1 := points.point1_p
  let split2 := points.point2_p
  match malloc2 with
  | none => return (.DNS_NONSRESOURCES, b.free expand_p, prm)
  | some (split2_bkt_p, split2_bkt) =>
    let split2_bkt ← db_btree_copy_keys host expand split2_bkt size split2 expand.node_count
    if split1 < split2 then
      match malloc1 with
      | none => return (.DNS_NONSRESOURCES, b.free expand_p, prm)
      | some (split1_bkt_p, split1_bkt) =>
        let split1_bkt ← db_btree_copy_keys host expand split1_bkt size split1 split2
        let low ← db_btree_copy_keys host expand bkt size 0 split1
        let b := ((b.put split2_bkt_p split2_bkt).put split1_bkt_p split1_bkt).put bkt_p low
        let b := (b.LINK_AFTER bkt_p split2_bkt_p).LINK_AFTER bkt_p split1_bkt_p
        return (.DNS_SUCCESS, b.free expand_p, prm.moved bkt_p split2_bkt_p)
    else
      let low ← db_btree_copy_keys host expand bkt size 0 split1
      let b := ((b.put split2_bkt_p split2_bkt).put bkt_p low).LINK_AFTER bkt_p split2_bkt_p
      return (.DNS_SUCCESS, b.free expand_p, prm.moved bkt_p split2_bkt_p)

end Copy

end dce.cds.btree
