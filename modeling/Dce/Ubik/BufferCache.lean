import Dce.Ubik.Transaction

open lib

namespace dce.ubik.buffer

abbrev PHSIZE : ℕ := 128

/-- The file of a buffer that holds no page: `0xffffffff` as a `long`. -/
abbrev BADFID : ℤ := -1

def pHash (fid : ℤ) : ℕ := (fid % PHSIZE).toNat

/-- `struct buffer`. The place of its data in `BufferData` goes with its number. -/
structure Buffer where
  file : ℤ
  page : ℕ
  accesstime : ℕ
  data : Page
  lockers : ℕ
  dirty : Bool
  hashIndex : ℕ

/-- The buffers of the process, which has one database. -/
structure Cache where
  nbuffers : ℕ
  buffers : ℕ → Buffer
  /-- The buffers on each hash chain in their order. -/
  phTable : ℕ → List ℕ
  LastBuffer : ℕ
  timecounter : ℕ

def DInit (abuffers : ℕ) : Cache := ⟨abuffers, fun _ => ⟨BADFID, 0, 0, DNew, 0, false, 0⟩, fun _ => [], 0, 0⟩

namespace Cache

def modify (c : Cache) (tb : ℕ) (f : Buffer → Buffer) : Cache :=
  { c with buffers := Function.update c.buffers tb (f (c.buffers tb)) }

@[simp] theorem modify_self (c : Cache) (tb : ℕ) (f : Buffer → Buffer) : (c.modify tb f).buffers tb = f (c.buffers tb) :=
  Function.update_self ..

theorem modify_other (c : Cache) {tb other : ℕ} (f : Buffer → Buffer) (hne : other ≠ tb) :
    (c.modify tb f).buffers other = c.buffers other :=
  Function.update_of_ne hne ..

/-- The test with which `DRead` recognises a page. -/
def holds (c : Cache) (fid : ℤ) (page : ℕ) (tb : ℕ) : Bool := (c.buffers tb).page = page ∧ (c.buffers tb).file = fid

def lock (c : Cache) (tb : ℕ) : Cache :=
  { c with timecounter := c.timecounter + 1 }.modify tb fun buffer =>
    { buffer with accesstime := c.timecounter + 1, lockers := buffer.lockers + 1 }

def FixupBucket (c : Cache) (ap : ℕ) : Cache :=
  let i := (c.buffers ap).hashIndex
  let c := { c with phTable := Function.update c.phTable i ((c.phTable i).erase ap) }
  let i := pHash (c.buffers ap).file
  { c.modify ap fun buffer => { buffer with hashIndex := i } with phTable := Function.update c.phTable i (ap :: c.phTable i) }

/-- The search of `newslot`: the buffer that was least recently used among those that nobody uses and that are not modified. -/
def search (c : Cache) : Option ℕ × ℕ :=
  (List.range c.nbuffers).foldl (fun best tp =>
    if (c.buffers tp).lockers = 0 ∧ (c.buffers tp).dirty = false ∧ (c.buffers tp).accesstime < best.2 then
      (some tp, (c.buffers tp).accesstime)
    else best) (none, 999999999)

def newslot (c : Cache) (afid : ℤ) (apage : ℕ) : Option (ℕ × Cache) :=
  match c.search.1 with
  | none => none
  | some pp =>
    let c := { c with timecounter := c.timecounter + 1 }.modify pp fun buffer =>
      { buffer with file := afid, page := apage, accesstime := c.timecounter + 1 }
    some (pp, { c.FixupBucket pp with LastBuffer := pp })

/-- `DRead`: the buffer with the page, if it could be had. -/
def DRead (d : Disk) (c : Cache) (fid : ℤ) (page : ℕ) : Option ℕ × Cache :=
  if c.holds fid page c.LastBuffer then (some c.LastBuffer, c.lock c.LastBuffer)
  else
    match (c.phTable (pHash fid)).find? (c.holds fid page) with
    | some tb => (some tb, { c.lock tb with LastBuffer := tb })
    | none =>
      match c.newslot fid page with
      | none => (none, c)
      | some (tb, c) =>
        -- what the file has of the page is read over zeros, also when that is too little
        let c := c.modify tb fun buffer =>
          { buffer with
            data := fun offset => (d fid).data.byte (page * UBIK_PAGESIZE + offset)
            lockers := buffer.lockers + 1 }
        match uphys_read d fid (page * UBIK_PAGESIZE) UBIK_PAGESIZE with
        | some _ => (some tb, c)
        | none => (none, c.modify tb fun buffer => { buffer with file := BADFID, lockers := buffer.lockers - 1 })

/-- `DNew`: a buffer for a page that is not read. -/
def DNew (c : Cache) (fid : ℤ) (page : ℕ) : Option (ℕ × Cache) :=
  match c.newslot fid page with
  | none => none
  | some (tb, c) => some (tb, c.modify tb fun buffer => { buffer with data := ubik.DNew, lockers := buffer.lockers + 1 })

def DRelease (c : Cache) (bp : ℕ) (flag : Bool) : Cache :=
  c.modify bp fun buffer => { buffer with lockers := buffer.lockers - 1, dirty := buffer.dirty || flag }

/-- `DFlush`: every modified page is written, whatever the file has of it. -/
def DFlush (c : Cache) (d : Disk) : Disk :=
  (List.range c.nbuffers).foldl (fun d tb =>
    if (c.buffers tb).dirty then
      uphys_write d (c.buffers tb).file ((c.buffers tb).page * UBIK_PAGESIZE) ((List.range UBIK_PAGESIZE).map (c.buffers tb).data)
    else d) d

/-- `DSync`: the files are synced one by one, each with its buffers. -/
def DSync (c : Cache) : Cache :=
  { c with buffers := fun tb => { c.buffers tb with dirty := (c.buffers tb).dirty && (c.buffers tb).file == BADFID } }

def DTrunc (c : Cache) (fid : ℤ) (length : ℕ) : Cache :=
  { c with
    buffers := fun tb =>
      if tb ∈ c.phTable (pHash fid) ∧ (length + UBIK_PAGESIZE - 1) / UBIK_PAGESIZE ≤ (c.buffers tb).page ∧
          (c.buffers tb).file = fid then
        { c.buffers tb with file := BADFID }
      else c.buffers tb }

end Cache

/-- The bytes that a loop has left to do on the page of a position. -/
def onPage (pos alen : ℕ) : ℕ := min (UBIK_PAGESIZE - pos % UBIK_PAGESIZE) alen

theorem onPage_pos (pos : ℕ) {alen : ℕ} (halen : 0 < alen) : 0 < onPage pos alen := by
  have hmod : pos % 1024 < 1024 := Nat.mod_lt _ (by decide)
  simp only [onPage, UBIK_PAGESIZE]
  omega

theorem onPage_le (pos alen : ℕ) : onPage pos alen ≤ alen := Nat.min_le_right ..

/-- What the loop of `udisk_read` does with one page. -/
def readPage (d : Disk) (c : Cache) (afile : ℤ) (apos len : ℕ) : Option (List Byte) × Cache :=
  match Cache.DRead d c afile (apos / UBIK_PAGESIZE) with
  | (none, c) => (none, c)
  | (some bp, c) =>
    (some ((List.range len).map fun k => (c.buffers bp).data (apos % UBIK_PAGESIZE + k)), c.DRelease bp false)

/-- The loop of `udisk_read`; without a result it returns `UEOF`. -/
def readPages (d : Disk) (c : Cache) (afile : ℤ) (apos alen : ℕ) : Option (List Byte) × Cache :=
  if _hdone : alen = 0 then (some [], c)
  else
    match readPage d c afile apos (onPage apos alen) with
    | (none, c) => (none, c)
    | (some bytes, c) =>
      match readPages d c afile (apos + onPage apos alen) (alen - onPage apos alen) with
      | (rest, c) => (rest.map (bytes ++ ·), c)
termination_by alen
decreasing_by
  have hpos := onPage_pos apos (Nat.pos_of_ne_zero _hdone)
  omega

/-- What the loop of `udisk_write` does with one page. -/
def writePage (d : Disk) (c : Cache) (afile : ℤ) (apos : ℕ) (chunk : List Byte) : Option Unit × Cache :=
  match Cache.DRead d c afile (apos / UBIK_PAGESIZE) with
  | (some bp, c) =>
    (some (), (c.modify bp fun buffer => { buffer with data := bcopy chunk buffer.data (apos % UBIK_PAGESIZE) }).DRelease bp true)
  | (none, c) =>
    match c.DNew afile (apos / UBIK_PAGESIZE) with
    | none => (none, c)
    | some (bp, c) =>
      (some (), (c.modify bp fun buffer => { buffer with data := bcopy chunk buffer.data (apos % UBIK_PAGESIZE) }).DRelease bp true)

/-- The loop of `udisk_write`; without a result it returns `UIOERROR`. -/
def writePages (d : Disk) (c : Cache) (afile : ℤ) (apos : ℕ) (abuffer : List Byte) : Option Unit × Cache :=
  if _hdone : abuffer = [] then (some (), c)
  else
    match writePage d c afile apos (abuffer.take (onPage apos abuffer.length)) with
    | (none, c) => (none, c)
    | (some _, c) =>
      writePages d c afile (apos + onPage apos abuffer.length) (abuffer.drop (onPage apos abuffer.length))
termination_by abuffer.length
decreasing_by
  have hpos := onPage_pos apos (List.length_pos_of_ne_nil _hdone)
  rw [List.length_drop]
  have hlen := List.length_pos_of_ne_nil _hdone
  omega

/-- A write transaction that has not ended: the disk with the log, the buffers and the truncation entries. -/
structure Trans where
  disk : Disk
  cache : Cache
  activeTruncs : List (ℤ × ℕ)

/-- A call to the package. -/
inductive Op where
  | read (afile apos : Offset) (alen : ℕ)
  | write (afile apos : Offset) (abuffer : Block)

namespace Trans

def udisk_begin (order : ByteOrder) (d : Disk) (c : Cache) : Trans := ⟨udisk_LogOpcode order d LOGNEW, c, []⟩

def udisk_read (t : Trans) (afile apos : Offset) (alen : ℕ) : Option (List Byte) × Trans :=
  match readPages t.disk t.cache afile.val apos.val alen with
  | (bytes, cache) => (bytes, { t with cache := cache })

def udisk_write (order : ByteOrder) (t : Trans) (afile apos : Offset) (abuffer : Block) : Option Unit × Trans :=
  let disk := udisk_LogWriteData order t.disk afile.toLong apos.toLong abuffer.len.toLong abuffer.val
  match writePages disk t.cache afile.val apos.val abuffer.val with
  | (code, cache) =>
    (code, {
      disk := disk
      cache := cache
      activeTruncs := t.activeTruncs.map fun tt =>
        if tt.1 = (afile.val : ℤ) ∧ tt.2 < apos.val + abuffer.val.length then (tt.1, apos.val + abuffer.val.length) else tt })

def call (order : ByteOrder) (t : Trans) : Op → Trans
  | .read afile apos alen => (t.udisk_read afile apos alen).2
  | .write afile apos abuffer => (t.udisk_write order afile apos abuffer).2

def calls (order : ByteOrder) (t : Trans) (ops : List Op) : Trans := ops.foldl (call order) t

def DoTruncs (t : Trans) : Trans where
  disk := t.activeTruncs.foldl (fun d tt => uphys_truncate d tt.1 tt.2) t.disk
  cache := t.activeTruncs.foldl (fun c tt => c.DTrunc tt.1 tt.2) t.cache
  activeTruncs := []

/-- `udisk_commit`, with the version that it has already increased. -/
def udisk_commit (order : ByteOrder) (t : Trans) (version : Version) : Trans :=
  let t := { t with disk := udisk_LogEnd order t.disk version }
  let t := { t with disk := t.cache.DFlush t.disk, cache := t.cache.DSync }
  let t := t.DoTruncs
  { t with disk := uphys_truncate (uphys_setlabel t.disk 0 version) LOGFILE 0 }

end Trans

end dce.ubik.buffer
