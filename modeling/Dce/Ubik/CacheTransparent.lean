import Dce.Ubik.CacheInvariant

open lib

namespace dce.ubik.buffer

/-- What a page needs before it is read or written: a buffer has it, or the file has the whole of it or nothing, and
there is room for it. -/
def Ready (d : Disk) (c : Cache) (file : ℤ) (page : ℕ) : Prop := c.Buffered file page ∨ ¬Partial d file page ∧ c.Room

def View.write (view : View) (file : ℤ) (pos : ℕ) (data : List Byte) : View :=
  fun f i => if f = file ∧ pos ≤ i ∧ i < pos + data.length then data.getD (i - pos) 0 else view f i

theorem View.write_nil (view : View) (file : ℤ) (pos : ℕ) : view.write file pos [] = view := by
  funext f i
  refine if_neg ?_
  rintro ⟨-, hlo, hhi⟩
  rw [List.length_nil] at hhi
  omega

theorem View.write_take_drop (view : View) (file : ℤ) (pos len : ℕ) (data : List Byte) (hlen : len ≤ data.length) :
    (view.write file pos (data.take len)).write file (pos + len) (data.drop len) = view.write file pos data := by
  funext f i
  have htake : (data.take len).length = len := by rw [List.length_take]; omega
  simp only [View.write, List.length_drop, htake]
  by_cases hfile : f = file
  · by_cases hrest : pos + len ≤ i ∧ i < pos + len + (data.length - len)
    · rw [if_pos ⟨hfile, hrest⟩, if_pos ⟨hfile, by omega, by omega⟩, getD_drop]
      congr 1
      omega
    · rw [if_neg fun h => hrest h.2]
      by_cases hfirst : pos ≤ i ∧ i < pos + len
      · rw [if_pos ⟨hfile, hfirst⟩, if_pos ⟨hfile, by omega, by omega⟩, getD_take_of_lt _ (by omega)]
      · rw [if_neg fun h => hfirst h.2, if_neg fun h => ?_]
        omega
  · rw [if_neg fun h => hfile h.1, if_neg fun h => hfile h.1, if_neg fun h => hfile h.1]

section Pages

variable {d : Disk} {view : View} {c : Cache} {file : ℤ} {pos len : ℕ}

theorem offset_lt (pos : ℕ) : pos % UBIK_PAGESIZE < UBIK_PAGESIZE := Nat.mod_lt _ (by decide)

theorem Shows.page_read (h : Shows d view c) (hfile : file ≠ BADFID) (len : ℕ) (hlen : len ≤ UBIK_PAGESIZE - pos % UBIK_PAGESIZE) :
    Shows d view (readPage d c file pos len).2 ∧
    (∀ bytes, (readPage d c file pos len).1 = some bytes → bytes = (List.range len).map fun k => view file (pos + k)) ∧
    (Ready d c file (pos / UBIK_PAGESIZE) → pos < (d file).data.length → (readPage d c file pos len).1 ≠ none) := by
  have hspec := DRead_spec (pos / UBIK_PAGESIZE) h hfile
  unfold readPage
  have hdiv := Nat.div_add_mod pos UBIK_PAGESIZE
  cases hread : c.DRead d file (pos / UBIK_PAGESIZE) with
  | mk result c' =>
    rw [hread] at hspec
    cases hspec with
    | found htakes hfits hclean =>
      refine ⟨?_, fun bytes hbytes => ?_, fun _ _ => Option.some_ne_none _⟩
      · have hreleased := htakes.modify (f := fun buffer =>
          { buffer with lockers := buffer.lockers - 1, dirty := buffer.dirty || false }) fun _ => ⟨rfl, rfl, rfl⟩
        refine h.take hreleased hfile (fun _ _ _ => rfl) ?_ fun hnew => hclean ?_
        · rw [Cache.modify_self]
          exact hfits
        · rw [Cache.modify_self] at hnew
          simpa using hnew
      · rw [← Option.some.inj hbytes]
        refine List.map_congr_left fun k hk => ?_
        have hin : pos % UBIK_PAGESIZE + k < UBIK_PAGESIZE := by
          have hk' := List.mem_range.mp hk
          omega
        rw [hfits _ hin]
        congr 1
        rw [Nat.mul_comm]
        omega
    | failed hmiss hshows hmissed hwhy =>
      refine ⟨hshows, fun bytes hbytes => absurd hbytes (by simp), fun hready hin => ?_⟩
      obtain hbuffered | ⟨hshort, hroom⟩ := hready
      · exact absurd hbuffered hmiss
      · refine absurd hroom (hwhy ?_)
        unfold Partial at hshort
        unfold Whole
        have hoffset := offset_lt pos
        simp only [UBIK_PAGESIZE] at *
        omega

theorem fits_bcopy {page : ℕ} {data : Page} (hfits : Fits view file page data) {chunk : List Byte}
    (hpage : pos / UBIK_PAGESIZE = page) : Fits (view.write file pos chunk) file page (bcopy chunk data (pos % UBIK_PAGESIZE)) := by
  intro offset hoffset
  have hdiv := Nat.div_add_mod pos UBIK_PAGESIZE
  have hpos := offset_lt pos
  subst hpage
  simp only [bcopy, View.write]
  simp only [UBIK_PAGESIZE] at *
  by_cases hin : pos % 1024 ≤ offset ∧ offset < pos % 1024 + chunk.length
  · rw [if_pos hin, if_pos ⟨trivial, by omega, by omega⟩]
    congr 1
    omega
  · rw [if_neg hin, if_neg fun h => ?_]
    · exact hfits offset hoffset
    · omega

theorem Shows.page_written (h : Shows d view c) (hfile : file ≠ BADFID) {chunk : List Byte}
    (hlen : chunk.length ≤ UBIK_PAGESIZE - pos % UBIK_PAGESIZE) (hready : Ready d c file (pos / UBIK_PAGESIZE))
    (hagain : (c.DRead d file (pos / UBIK_PAGESIZE)).1 = none → Ready d (c.DRead d file (pos / UBIK_PAGESIZE)).2 file
      (pos / UBIK_PAGESIZE)) :
    (writePage d c file pos chunk).1 = some () ∧
      Shows d (view.write file pos chunk) (writePage d c file pos chunk).2 := by
  have hother : ∀ f i, ¬(f = file ∧ i / UBIK_PAGESIZE = pos / UBIK_PAGESIZE) → view.write file pos chunk f i = view f i := by
    intro f i hne
    refine if_neg fun hin => hne ⟨hin.1, ?_⟩
    obtain ⟨-, hlo, hhi⟩ := hin
    have hoffset := offset_lt pos
    simp only [UBIK_PAGESIZE] at *
    omega
  -- the page that a buffer has taken is changed and released
  have hwritten : ∀ {c c' : Cache} {tb : ℕ}, Shows d view c → Takes c tb file (pos / UBIK_PAGESIZE) c' →
      Fits view file (pos / UBIK_PAGESIZE) (c'.buffers tb).data →
      Shows d (view.write file pos chunk)
        ((c'.modify tb fun buffer => { buffer with data := bcopy chunk buffer.data (pos % UBIK_PAGESIZE) }).DRelease tb true) := by
    intro c c' tb hshows htakes hfits
    have hreleased := (htakes.modify (f := fun buffer =>
      { buffer with data := bcopy chunk buffer.data (pos % UBIK_PAGESIZE) }) fun _ => ⟨rfl, rfl, rfl⟩).modify
      (f := fun buffer => { buffer with lockers := buffer.lockers - 1, dirty := buffer.dirty || true }) fun _ => ⟨rfl, rfl, rfl⟩
    refine hshows.take hreleased hfile hother ?_ fun hnew => ?_
    · rw [Cache.modify_self, Cache.modify_self]
      exact fits_bcopy hfits rfl
    · rw [Cache.modify_self] at hnew
      exact absurd hnew (by simp)
  have hspec := DRead_spec (pos / UBIK_PAGESIZE) h hfile
  unfold writePage
  cases hread : c.DRead d file (pos / UBIK_PAGESIZE) with
  | mk result c' =>
    rw [hread] at hspec
    cases hspec with
    | found htakes hfits hclean => exact ⟨rfl, hwritten h htakes hfits⟩
    | failed hmiss hshows hmissed hwhy =>
      -- a page of which the file has nothing
      obtain ⟨hshort, hroom⟩ := hready.resolve_left hmiss
      rw [hread] at hagain
      obtain ⟨-, hroom'⟩ := (hagain rfl).resolve_left hmissed
      have hpast : (d file).data.length ≤ pos / UBIK_PAGESIZE * UBIK_PAGESIZE := by
        by_contra hsome
        refine hwhy ?_ hroom
        unfold Partial at hshort
        unfold Whole
        omega
      obtain ⟨tb, c₁, hslot⟩ := newslot_room file (pos / UBIK_PAGESIZE) hroom'
      obtain ⟨htakes, -⟩ := newslot_takes hshows hmissed hslot
      have hnew : Fits view file (pos / UBIK_PAGESIZE) DNew := by
        intro offset hoffset
        have hdisk := hshows.elsewhere file (pos / UBIK_PAGESIZE) hfile (fun b hb hbfile hbpage =>
          absurd ⟨b, hb, Cache.holds_iff.mpr ⟨hbpage, hbfile⟩⟩ hmissed) offset hoffset
        have hbeyond := (d file).data.byte_beyond _ (hpast.trans (Nat.le_add_right _ offset))
        exact (hdisk.trans hbeyond).symm
      dsimp only
      unfold Cache.DNew
      rw [hslot]
      refine ⟨rfl, hwritten hshows (htakes.modify (f := fun buffer =>
        { buffer with data := DNew, lockers := buffer.lockers + 1 }) fun _ => ⟨rfl, rfl, rfl⟩) ?_⟩
      rw [Cache.modify_self]
      exact hnew

end Pages

/-- Something holds before every page that a read reads. -/
inductive ReadAlong (P : Cache → ℤ → ℕ → Prop) (d : Disk) (file : ℤ) : Cache → ℕ → ℕ → Prop where
  | done (c : Cache) (pos : ℕ) : ReadAlong P d file c pos 0
  | page {c : Cache} {pos alen : ℕ} (hmore : alen ≠ 0) (hnow : P c file (pos / UBIK_PAGESIZE))
    (hrest : (readPage d c file pos (onPage pos alen)).1 ≠ none →
      ReadAlong P d file (readPage d c file pos (onPage pos alen)).2 (pos + onPage pos alen) (alen - onPage pos alen)) :
    ReadAlong P d file c pos alen

/-- Something holds before every page that a write writes, and again if the page is not read. -/
inductive WriteAlong (P : Cache → ℤ → ℕ → Prop) (d : Disk) (file : ℤ) : Cache → ℕ → List Byte → Prop where
  | done (c : Cache) (pos : ℕ) : WriteAlong P d file c pos []
  | page {c : Cache} {pos : ℕ} {data : List Byte} (hmore : data ≠ []) (hnow : P c file (pos / UBIK_PAGESIZE))
    (hagain : (c.DRead d file (pos / UBIK_PAGESIZE)).1 = none →
      P (c.DRead d file (pos / UBIK_PAGESIZE)).2 file (pos / UBIK_PAGESIZE))
    (hrest : (writePage d c file pos (data.take (onPage pos data.length))).1 ≠ none →
      WriteAlong P d file (writePage d c file pos (data.take (onPage pos data.length))).2 (pos + onPage pos data.length)
        (data.drop (onPage pos data.length))) : WriteAlong P d file c pos data

section Loops

variable {d : Disk} {view : View} {c : Cache} {file : ℤ} {pos alen : ℕ}

theorem Shows.read_all (h : Shows d view c) (hfile : file ≠ BADFID) :
    Shows d view (readPages d c file pos alen).2 ∧
    ∀ bytes, (readPages d c file pos alen).1 = some bytes → bytes = (List.range alen).map fun k => view file (pos + k) := by
  induction halen : alen using Nat.strong_induction_on generalizing c pos alen with
  | _ n ih =>
    subst halen
    rw [readPages.eq_def]
    by_cases hdone : alen = 0
    · rw [dif_pos hdone]
      refine ⟨h, fun bytes hbytes => ?_⟩
      rw [← Option.some.inj hbytes, hdone]
      rfl
    · rw [dif_neg hdone]
      have hpos := onPage_pos pos (Nat.pos_of_ne_zero hdone)
      have hle := onPage_le pos alen
      obtain ⟨hshows, hbytesOf, -⟩ := h.page_read hfile (onPage pos alen) (Nat.min_le_left ..)
      cases hpage : readPage d c file pos (onPage pos alen) with
      | mk result c' =>
        rw [hpage] at hshows hbytesOf
        cases result with
        | none => exact ⟨hshows, fun bytes hbytes => absurd hbytes (by simp)⟩
        | some first =>
          obtain ⟨hrest, hrestOf⟩ := ih (alen - onPage pos alen) (by omega) hshows rfl
          dsimp only
          refine ⟨hrest, fun bytes hbytes => ?_⟩
          obtain ⟨rest, hrestEq, rfl⟩ := Option.map_eq_some_iff.mp hbytes
          rw [hbytesOf first rfl, hrestOf rest hrestEq]
          have hsplit : alen = onPage pos alen + (alen - onPage pos alen) := by omega
          conv_rhs => rw [hsplit, List.range_add, List.map_append, List.map_map]
          refine congrArg _ (List.map_congr_left fun k _ => ?_)
          simp only [Function.comp_apply, Nat.add_assoc]

theorem Shows.read_inside (h : Shows d view c) (hfile : file ≠ BADFID) (hready : ReadAlong (Ready d) d file c pos alen)
    (hin : pos + alen ≤ (d file).data.length) : (readPages d c file pos alen).1 ≠ none := by
  induction hready with
  | done c pos =>
    rw [readPages.eq_def]
    exact Option.some_ne_none _
  | @page c pos alen hmore hnow _ ih =>
    have hle := onPage_le pos alen
    obtain ⟨hshows, -, hsome⟩ := h.page_read hfile (onPage pos alen) (Nat.min_le_left ..)
    have hgot := hsome hnow (by omega)
    have hrest := ih hgot hshows (by omega)
    rw [readPages.eq_def, dif_neg hmore]
    cases hpage : readPage d c file pos (onPage pos alen) with
    | mk result c' =>
      rw [hpage] at hgot hrest
      cases result with
      | none => exact absurd rfl hgot
      | some first =>
        intro hnone
        exact hrest (Option.map_eq_none_iff.mp hnone)

theorem Shows.written_all {data : List Byte} (h : Shows d view c) (hfile : file ≠ BADFID)
    (hready : WriteAlong (Ready d) d file c pos data) :
    (writePages d c file pos data).1 = some () ∧
      Shows d (view.write file pos data) (writePages d c file pos data).2 := by
  induction hready generalizing view with
  | done c pos =>
    rw [writePages.eq_def, dif_pos rfl, View.write_nil]
    exact ⟨rfl, h⟩
  | @page c pos data hmore hnow hagain _ ih =>
    have hle := onPage_le pos data.length
    have htake : (data.take (onPage pos data.length)).length ≤ UBIK_PAGESIZE - pos % UBIK_PAGESIZE := by
      rw [List.length_take]
      exact (Nat.min_le_left ..).trans (Nat.min_le_left ..)
    obtain ⟨hdone, hshows⟩ := h.page_written hfile htake hnow hagain
    obtain ⟨hrest, hrestShows⟩ := ih (by rw [hdone]; exact Option.some_ne_none _) hshows
    rw [View.write_take_drop _ _ _ _ _ hle] at hrestShows
    rw [writePages.eq_def, dif_neg hmore]
    cases hpage : writePage d c file pos (data.take (onPage pos data.length)) with
    | mk result c' =>
      rw [hpage] at hdone hrest hrestShows
      obtain rfl := hdone
      exact ⟨hrest, hrestShows⟩

end Loops

def Op.on (file : ℤ) : Op → Option FileOp
  | .read .. => none
  | .write afile apos abuffer => if (afile.val : ℤ) = file then some (.write apos.val abuffer.val) else none

/-- The last byte that the calls have written at a position, or else that of the file. -/
def seen (d : Disk) (ops : List Op) : View := fun file i => (lastWritten (ops.filterMap (Op.on file)) i).getD ((d file).data.byte i)

/-- The pages of every write are ready when their turn comes. -/
def Trans.Served (order : ByteOrder) (t : Trans) : List Op → Prop
  | [] => True
  | .read afile apos alen :: ops => (t.call order (.read afile apos alen)).Served order ops
  | .write afile apos abuffer :: ops =>
    let disk := udisk_LogWriteData order t.disk afile.toLong apos.toLong abuffer.len.toLong abuffer.val
    WriteAlong (Ready disk) disk afile.val t.cache apos.val abuffer.val ∧
      (t.call order (.write afile apos abuffer)).Served order ops

/-- The buffers hold whole pages of the files, as the files have them. -/
structure Clean (d : Disk) (c : Cache) : Prop where
  shows : Shows d (onDisk d) c
  unmodified : ∀ b < c.nbuffers, (c.buffers b).dirty = false

/-- A transaction has made some calls. -/
structure Running (d : Disk) (ops : List Op) (t : Trans) : Prop where
  files : ∀ file, file ≠ LOGFILE → t.disk file = d file
  shows : Shows d (seen d ops) t.cache
  truncs : t.activeTruncs = []

section Transactions

variable {d d' : Disk} {view : View} {c : Cache} {order : ByteOrder} {t : Trans} {ops : List Op} {file : ℤ}

theorem seen_read (afile apos : Offset) (alen : ℕ) : seen d (ops ++ [.read afile apos alen]) = seen d ops := by
  funext f i
  unfold seen
  rw [List.filterMap_append, List.filterMap_cons_none rfl, List.filterMap_nil, List.append_nil]

theorem seen_write (afile apos : Offset) (abuffer : Block) :
    seen d (ops ++ [.write afile apos abuffer]) = (seen d ops).write afile.val apos.val abuffer.val := by
  funext f i
  unfold View.write seen
  by_cases hfile : (afile.val : ℤ) = f
  · rw [List.filterMap_append, List.filterMap_cons_some (b := FileOp.write apos.val abuffer.val) (by simp [Op.on, hfile]), List.filterMap_nil, lastWritten_snoc_write]
    by_cases hin : covers apos.val abuffer.val i
    · rw [if_pos hin, if_pos ⟨hfile.symm, hin⟩, Option.getD_some]
    · rw [if_neg hin, if_neg fun h => hin h.2]
  · rw [List.filterMap_append, List.filterMap_cons_none (by simp [Op.on, hfile]), List.filterMap_nil, List.append_nil,
      if_neg fun h => hfile h.1.symm]

theorem seen_untouched {i : ℕ} (hnone : ∀ afile apos abuffer, Op.write afile apos abuffer ∈ ops → (afile.val : ℤ) = file →
    ¬covers apos.val abuffer.val i) : seen d ops file i = (d file).data.byte i := by
  induction ops using List.reverseRecOn with
  | nil => rfl
  | append_singleton ops op ih =>
    have hbefore := ih fun afile apos abuffer hmem => hnone afile apos abuffer (List.mem_append_left _ hmem)
    cases op with
    | read afile apos alen => rw [seen_read, hbefore]
    | write afile apos abuffer =>
      rw [seen_write, View.write, if_neg fun h => ?_, hbefore]
      exact hnone afile apos abuffer (List.mem_append_right _ List.mem_cons_self) h.1.symm h.2

theorem Shows.on (h : Shows d view c) (hfiles : ∀ file, file ≠ LOGFILE → d' file = d file) : Shows d' view c := by
  refine ⟨h.last, h.chained, h.chain, h.nodup, h.single, h.modified, h.shown, fun b hb hvalid hnew => ?_,
    fun file page hfile hnone offset hoffset => ?_⟩
  · unfold Whole
    rw [hfiles _ hvalid]
    exact h.clean b hb hvalid hnew
  · rw [hfiles file hfile]
    exact h.elsewhere file page hfile hnone offset hoffset

theorem ne_BADFID (file : Offset) : (file.val : ℤ) ≠ BADFID := by
  have hnonneg := Int.natCast_nonneg file.val
  change (file.val : ℤ) ≠ -1
  omega

theorem udisk_LogWriteData_other (order : ByteOrder) (d : Disk) (afile apos len : Long) (buffer : List Byte)
    (hfile : file ≠ LOGFILE) : udisk_LogWriteData order d afile apos len buffer file = d file := by
  unfold udisk_LogWriteData logWriteHeader appendLongs
  rw [uphys_write_other _ _ _ hfile, uphys_write_other _ _ _ hfile]

theorem Running.begin (hclean : Clean d c) : Running d [] (Trans.udisk_begin order d c) where
  files _ hfile := uphys_write_other _ _ _ hfile
  shows := hclean.shows
  truncs := rfl

theorem Running.read (h : Running d ops t) (afile apos : Offset) (alen : ℕ) :
    Running d (ops ++ [.read afile apos alen]) (t.call order (.read afile apos alen)) where
  files := h.files
  shows := by
    rw [seen_read]
    exact ((h.shows.on h.files).read_all (ne_BADFID afile)).1.on fun file hfile => (h.files file hfile).symm
  truncs := h.truncs

theorem Running.write (h : Running d ops t) {afile apos : Offset} {abuffer : Block}
    (hready : let disk := udisk_LogWriteData order t.disk afile.toLong apos.toLong abuffer.len.toLong abuffer.val
      WriteAlong (Ready disk) disk afile.val t.cache apos.val abuffer.val) :
    (t.udisk_write order afile apos abuffer).1 = some () ∧
      Running d (ops ++ [.write afile apos abuffer]) (t.call order (.write afile apos abuffer)) := by
  have hfiles : ∀ file, file ≠ LOGFILE →
      udisk_LogWriteData order t.disk afile.toLong apos.toLong abuffer.len.toLong abuffer.val file = d file :=
    fun file hfile => (udisk_LogWriteData_other order t.disk _ _ _ _ hfile).trans (h.files file hfile)
  obtain ⟨hdone, hshows⟩ := (h.shows.on hfiles).written_all (ne_BADFID afile) hready
  refine ⟨hdone, hfiles, ?_, ?_⟩
  · rw [seen_write]
    exact hshows.on fun file hfile => (hfiles file hfile).symm
  · change List.map _ t.activeTruncs = []
    rw [h.truncs]
    rfl

theorem Running.calls {before : List Op} (h : Running d before t) (hserved : t.Served order ops) :
    Running d (before ++ ops) (t.calls order ops) := by
  induction ops generalizing before t with
  | nil =>
    rw [List.append_nil]
    exact h
  | cons op ops ih =>
    rw [← List.singleton_append, ← List.append_assoc]
    cases op with
    | read afile apos alen => exact ih (h.read afile apos alen) hserved
    | write afile apos abuffer => exact ih (h.write hserved.1).2 hserved.2

def Cache.flushed (c : Cache) (d : Disk) (count : ℕ) : Disk :=
  (List.range count).foldl (fun d tb =>
    if (c.buffers tb).dirty then
      uphys_write d (c.buffers tb).file ((c.buffers tb).page * UBIK_PAGESIZE) ((List.range UBIK_PAGESIZE).map (c.buffers tb).data)
    else d) d

theorem flushed_succ (c : Cache) (d : Disk) (count : ℕ) : c.flushed d (count + 1) =
    if (c.buffers count).dirty then
      uphys_write (c.flushed d count) (c.buffers count).file ((c.buffers count).page * UBIK_PAGESIZE)
        ((List.range UBIK_PAGESIZE).map (c.buffers count).data)
    else c.flushed d count := by
  unfold Cache.flushed
  rw [List.range_succ (n := count), List.foldl_append]
  rfl

theorem write_page_byte (d : Disk) (data : Page) (f : ℤ) (page i : ℕ) :
    (uphys_write d f (page * UBIK_PAGESIZE) ((List.range UBIK_PAGESIZE).map data) file).data.byte i =
      if f = file ∧ page = i / UBIK_PAGESIZE then data (i % UBIK_PAGESIZE) else (d file).data.byte i := by
  have hdiv := Nat.div_add_mod i UBIK_PAGESIZE
  have hmod := offset_lt i
  by_cases hfile : f = file
  · subst hfile
    rw [uphys_write_data]
    by_cases hpage : page = i / UBIK_PAGESIZE
    · rw [if_pos ⟨rfl, hpage⟩, ByteFile.write_byte_inside]
      · have hoff : i - page * UBIK_PAGESIZE = i % UBIK_PAGESIZE := by
          rw [hpage, Nat.mul_comm]
          omega
        rw [hoff, List.getD_eq_getElem _ _ (by simpa using hmod), List.getElem_map, List.getElem_range]
      · rw [hpage, Nat.mul_comm]
        omega
      · rw [hpage, List.length_map, List.length_range, Nat.mul_comm]
        omega
    · rw [if_neg fun h => hpage h.2, ByteFile.write_byte_outside]
      rw [List.length_map, List.length_range]
      simp only [UBIK_PAGESIZE] at *
      omega
  · rw [if_neg fun h => hfile h.1, uphys_write_other _ _ _ (Ne.symm hfile)]

theorem Shows.flushed (h : Shows d view c) (hfile : file ≠ BADFID) (i : ℕ) {count : ℕ} (hcount : count ≤ c.nbuffers) :
    (∀ b < count, (c.buffers b).dirty = true → (c.buffers b).file = file → (c.buffers b).page = i / UBIK_PAGESIZE →
      (c.flushed d count file).data.byte i = (c.buffers b).data (i % UBIK_PAGESIZE)) ∧
    ((∀ b < count, (c.buffers b).dirty = true → (c.buffers b).file = file → (c.buffers b).page ≠ i / UBIK_PAGESIZE) →
      (c.flushed d count file).data.byte i = (d file).data.byte i) := by
  induction count with
  | zero => exact ⟨fun b hb => absurd hb (Nat.not_lt_zero b), fun _ => rfl⟩
  | succ count ih =>
    obtain ⟨hin, hout⟩ := ih (by omega)
    rw [flushed_succ]
    by_cases hdirty : (c.buffers count).dirty = true
    · rw [if_pos hdirty, write_page_byte]
      by_cases hkey : (c.buffers count).file = file ∧ (c.buffers count).page = i / UBIK_PAGESIZE
      · rw [if_pos hkey]
        refine ⟨fun b hb _ hbfile hbpage => ?_, fun hnone => absurd hkey.2 (hnone count (Nat.lt_succ_self count) hdirty hkey.1)⟩
        have hsame := h.single b (by omega) count hcount (hbfile ▸ hfile) (hbfile.trans hkey.1.symm) (hbpage.trans hkey.2.symm)
        rw [hsame]
      · rw [if_neg hkey]
        refine ⟨fun b hb hbdirty hbfile hbpage => ?_, fun hnone => hout fun b hb => hnone b (by omega)⟩
        have hne : b ≠ count := fun heq => hkey ⟨heq ▸ hbfile, heq ▸ hbpage⟩
        exact hin b (by omega) hbdirty hbfile hbpage
    · rw [if_neg hdirty]
      refine ⟨fun b hb hbdirty => ?_, fun hnone => hout fun b hb => hnone b (by omega)⟩
      have hne : b ≠ count := fun heq => hdirty (heq ▸ hbdirty)
      exact hin b (by omega) hbdirty

theorem write_page_length (d : Disk) (data : Page) (f : ℤ) (page : ℕ) :
    (uphys_write d f (page * UBIK_PAGESIZE) ((List.range UBIK_PAGESIZE).map data) file).data.length =
      if f = file then max (d file).data.length ((page + 1) * UBIK_PAGESIZE) else (d file).data.length := by
  by_cases hfile : f = file
  · subst hfile
    rw [if_pos rfl, uphys_write_data, ByteFile.write_length_of_ne_nil _ _ (by simp), List.length_map, List.length_range,
      Nat.succ_mul]
  · rw [if_neg hfile, uphys_write_other _ _ _ (Ne.symm hfile)]

theorem flushed_length (c : Cache) (d : Disk) (file : ℤ) (count : ℕ) :
    (d file).data.length ≤ (c.flushed d count file).data.length ∧
    ∀ b < count, (c.buffers b).dirty = true → (c.buffers b).file = file → Whole (c.flushed d count) file (c.buffers b).page := by
  induction count with
  | zero => exact ⟨le_rfl, fun b hb => absurd hb (Nat.not_lt_zero b)⟩
  | succ count ih =>
    obtain ⟨hlen, hwhole⟩ := ih
    unfold Whole at hwhole ⊢
    rw [flushed_succ]
    by_cases hdirty : (c.buffers count).dirty = true
    · rw [if_pos hdirty, write_page_length]
      by_cases hfile : (c.buffers count).file = file
      · rw [if_pos hfile]
        refine ⟨hlen.trans (Nat.le_max_left ..), fun b hb hbdirty hbfile => ?_⟩
        by_cases hb' : b = count
        · exact hb' ▸ Nat.le_max_right ..
        · exact (hwhole b (by omega) hbdirty hbfile).trans (Nat.le_max_left ..)
      · rw [if_neg hfile]
        refine ⟨hlen, fun b hb hbdirty hbfile => ?_⟩
        have hne : b ≠ count := fun heq => hfile (heq ▸ hbfile)
        exact hwhole b (by omega) hbdirty hbfile
    · rw [if_neg hdirty]
      refine ⟨hlen, fun b hb hbdirty hbfile => ?_⟩
      have hne : b ≠ count := fun heq => hdirty (heq ▸ hbdirty)
      exact hwhole b (by omega) hbdirty hbfile

theorem commit_data (htruncs : t.activeTruncs = []) (hfile : file ≠ LOGFILE) (version : Version) :
    ((t.udisk_commit order version).disk file).data =
      (t.cache.flushed (udisk_LogEnd order t.disk version) t.cache.nbuffers file).data := by
  unfold Trans.udisk_commit Trans.DoTruncs
  dsimp only
  rw [htruncs, uphys_truncate_other _ _ hfile, uphys_setlabel_data]
  rfl

theorem Running.commit_byte (order : ByteOrder) (h : Running d ops t) (hfile : file ≠ LOGFILE) (version : Version) (i : ℕ) :
    ((t.udisk_commit order version).disk file).data.byte i = seen d ops file i := by
  have hend : ∀ f, f ≠ LOGFILE → udisk_LogEnd order t.disk version f = d f :=
    fun f hf => (uphys_write_other _ _ _ hf).trans (h.files f hf)
  have hshows := h.shows.on hend
  rw [commit_data h.truncs hfile]
  have hdiv := Nat.div_add_mod i UBIK_PAGESIZE
  have hpos : i / UBIK_PAGESIZE * UBIK_PAGESIZE + i % UBIK_PAGESIZE = i := by rw [Nat.mul_comm]; exact hdiv
  obtain ⟨hin, hout⟩ := hshows.flushed hfile i le_rfl
  by_cases hsome : ∃ b < t.cache.nbuffers, (t.cache.buffers b).dirty = true ∧ (t.cache.buffers b).file = file ∧
      (t.cache.buffers b).page = i / UBIK_PAGESIZE
  · obtain ⟨b, hb, hdirty, hbfile, hbpage⟩ := hsome
    have hfits := hshows.shown b hb (hbfile ▸ hfile) (i % UBIK_PAGESIZE) (offset_lt i)
    rw [hin b hb hdirty hbfile hbpage, hfits, hbfile, hbpage, hpos]
  · have hclean : ∀ b < t.cache.nbuffers, (t.cache.buffers b).file = file → (t.cache.buffers b).page = i / UBIK_PAGESIZE →
        (t.cache.buffers b).dirty = false := fun b hb hbfile hbpage =>
      Bool.not_eq_true _ ▸ fun hdirty => hsome ⟨b, hb, hdirty, hbfile, hbpage⟩
    have hold := hshows.elsewhere file (i / UBIK_PAGESIZE) hfile hclean (i % UBIK_PAGESIZE) (offset_lt i)
    rw [hpos] at hold
    rw [hout fun b hb hdirty hbfile hbpage => hsome ⟨b, hb, hdirty, hbfile, hbpage⟩, hold]

theorem Running.commit_clean (h : Running d ops t) (version : Version) :
    Clean (t.udisk_commit order version).disk (t.udisk_commit order version).cache := by
  have hend : ∀ f, f ≠ LOGFILE → udisk_LogEnd order t.disk version f = d f :=
    fun f hf => (uphys_write_other _ _ _ hf).trans (h.files f hf)
  have hshows := h.shows
  have hcache : (t.udisk_commit order version).cache = t.cache.DSync := by
    unfold Trans.udisk_commit Trans.DoTruncs
    dsimp only
    rw [h.truncs]
    rfl
  have hlength : ∀ file page, file ≠ LOGFILE → Whole (t.cache.flushed (udisk_LogEnd order t.disk version) t.cache.nbuffers) file page →
      Whole (t.udisk_commit order version).disk file page := by
    intro file page hfile hwhole
    unfold Whole
    rw [commit_data h.truncs hfile]
    exact hwhole
  rw [hcache]
  have hunmodified : ∀ b < t.cache.nbuffers, (t.cache.DSync.buffers b).dirty = false := by
    intro b hb
    by_cases hdirty : (t.cache.buffers b).dirty = true
    · have hvalid := hshows.modified b hb hdirty
      simp [Cache.DSync, hvalid]
    · simp [Cache.DSync, hdirty]
  refine ⟨⟨hshows.last, hshows.chained, hshows.chain, hshows.nodup, hshows.single, fun b hb hdirty => ?_,
    fun b hb hvalid offset hoffset => ?_, fun b hb hvalid _ => ?_, fun _ _ _ _ _ _ => rfl⟩, hunmodified⟩
  · exact absurd (hdirty.symm.trans (hunmodified b hb)) (by decide)
  · have hfits := hshows.shown b hb hvalid offset hoffset
    have hbyte := h.commit_byte order hvalid version ((t.cache.buffers b).page * UBIK_PAGESIZE + offset)
    exact hfits.trans hbyte.symm
  · refine hlength _ _ hvalid ?_
    obtain ⟨hlen, hwhole⟩ := flushed_length t.cache (udisk_LogEnd order t.disk version) (t.cache.buffers b).file t.cache.nbuffers
    by_cases hdirty : (t.cache.buffers b).dirty = true
    · exact hwhole b hb hdirty rfl
    · have hold := hshows.clean b hb hvalid (Bool.not_eq_true _ ▸ hdirty)
      unfold Whole at hold ⊢
      rw [hend (t.cache.buffers b).file hvalid] at hlen
      exact hold.trans hlen

end Transactions

theorem Clean.DInit (d : Disk) {abuffers : ℕ} (hsome : 0 < abuffers) : Clean d (DInit abuffers) := by
  have hbad : ∀ b, ((buffer.DInit abuffers).buffers b).file = BADFID := fun _ => rfl
  exact ⟨⟨hsome, fun b _ hvalid => absurd (hbad b) hvalid, fun i b hb => absurd hb List.not_mem_nil, fun _ => List.nodup_nil,
    fun a _ b _ hvalid => absurd (hbad a) hvalid, fun b _ hdirty => absurd hdirty Bool.false_ne_true,
    fun b _ hvalid => absurd (hbad b) hvalid, fun b _ hvalid => absurd (hbad b) hvalid, fun _ _ _ _ _ _ => rfl⟩, fun _ _ => rfl⟩

/-- What the buffers are to a transaction after some calls: they are not to be noticed. -/
structure Transparent (order : ByteOrder) (d : Disk) (ops : List Op) (t : Trans) : Prop where
  /-- A read that succeeds returns the bytes written last, or else those of the file. -/
  reads : ∀ afile apos alen bytes, (t.udisk_read afile apos alen).1 = some bytes →
    bytes = (List.range alen).map fun k => seen d ops afile.val (apos.val + k)
  /-- A read inside the file succeeds. -/
  inside : ∀ (afile apos : Offset) (alen : ℕ), apos.val + alen ≤ (d afile.val).data.length →
    ReadAlong (Ready t.disk) t.disk afile.val t.cache apos.val alen → (t.udisk_read afile apos alen).1 ≠ none
  /-- A commit leaves what the transaction saw. -/
  committed : ∀ version file i, file ≠ LOGFILE → ((t.udisk_commit order version).disk file).data.byte i = seen d ops file i
  /-- A commit changes no byte that no call has written. -/
  untouched : ∀ version file i, file ≠ LOGFILE →
    (∀ afile apos abuffer, Op.write afile apos abuffer ∈ ops → (afile.val : ℤ) = file → ¬covers apos.val abuffer.val i) →
    ((t.udisk_commit order version).disk file).data.byte i = (d file).data.byte i
  /-- The buffers are clean for the next transaction. -/
  next : ∀ version, Clean (t.udisk_commit order version).disk (t.udisk_commit order version).cache

/-- The buffers are not noticed as long as every page is ready when a write needs it. -/
theorem transparent_of_served (order : ByteOrder) {d : Disk} {c : Cache} {ops : List Op} (hclean : Clean d c)
    (hserved : (Trans.udisk_begin order d c).Served order ops) :
    Transparent order d ops ((Trans.udisk_begin order d c).calls order ops) := by
  have hrun : Running d ops ((Trans.udisk_begin order d c).calls order ops) := (Running.begin hclean).calls hserved
  have hshows := hrun.shows.on hrun.files
  refine ⟨fun afile apos alen bytes hbytes => (hshows.read_all (ne_BADFID afile)).2 bytes hbytes,
    fun afile apos alen hin hready => hshows.read_inside (ne_BADFID afile) hready ?_,
    fun version file i hfile => hrun.commit_byte _ hfile version i,
    fun version file i hfile hnone => ?_, fun version => hrun.commit_clean version⟩
  · rw [hrun.files _ (ne_BADFID afile)]
    exact hin
  · rw [hrun.commit_byte _ hfile, seen_untouched hnone]

def firstByte : Op := .write 0 0 ⟨[9], by decide⟩

/-- The first write to an empty database, which a read follows. -/
theorem transparent_of_served_empty : Transparent .big (fun _ => ⟨none, ByteFile.empty⟩) [firstByte, .read 0 0 1]
    ((Trans.udisk_begin .big (fun _ => ⟨none, ByteFile.empty⟩) (DInit 2)).calls .big [firstByte, .read 0 0 1]) := by
  have hnothing : ∀ d : Disk, (d 0).data = ByteFile.empty → ¬Partial d 0 0 := by
    intro d hempty hshort
    unfold Partial at hshort
    rw [hempty] at hshort
    exact absurd hshort.1 (Nat.not_lt_zero _)
  refine transparent_of_served .big (Clean.DInit _ (by decide)) ⟨.page (by decide) (.inr ⟨hnothing _ rfl, 0, ?_⟩)
    (fun _ => .inr ⟨hnothing _ rfl, 1, ?_⟩) fun _ => .done _ _, trivial⟩
  · exact ⟨by decide, rfl, rfl, by decide⟩
  · exact ⟨by decide, rfl, rfl, by decide⟩

def twoBytes : Disk := fun file => ⟨none, if file = 0 then ByteFile.ofList [1, 2] else ByteFile.empty⟩

/-- There is a buffer that nobody uses and that is not modified. -/
def Cache.Supplied (c : Cache) : Prop := ∃ b < c.nbuffers, (c.buffers b).lockers = 0 ∧ (c.buffers b).dirty = false

theorem readPages_of_failed {d : Disk} {c : Cache} {file : ℤ} {pos alen : ℕ} (hmore : alen ≠ 0)
    (hfailed : (readPage d c file pos (onPage pos alen)).1 = none) : (readPages d c file pos alen).1 = none := by
  rw [readPages.eq_def, dif_neg hmore]
  cases hpage : readPage d c file pos (onPage pos alen) with
  | mk result c' =>
    rw [hpage] at hfailed
    obtain rfl : result = none := hfailed
    rfl

theorem writePages_of_onePage {d : Disk} {c : Cache} {file : ℤ} {pos : ℕ} {data : List Byte} (hmore : data ≠ [])
    (hfits : data.length ≤ UBIK_PAGESIZE - pos % UBIK_PAGESIZE) : writePages d c file pos data = writePage d c file pos data := by
  have hlen : onPage pos data.length = data.length := Nat.min_eq_right hfits
  rw [writePages.eq_def, dif_neg hmore, hlen, List.take_length, List.drop_length]
  cases hpage : writePage d c file pos data with
  | mk result c' =>
    cases result with
    | none => rfl
    | some _ =>
      dsimp only
      rw [writePages.eq_def, dif_pos rfl]

/-- The two bytes cannot be read, and the write of the first loses the second, with buffers to spare. -/
theorem partial_page_lost : Clean twoBytes (DInit 2) ∧
    (ReadAlong (fun c _ _ => c.Supplied) twoBytes 0 (DInit 2) 0 2 ∧ 2 ≤ (twoBytes 0).data.length ∧
      ((Trans.udisk_begin .big twoBytes (DInit 2)).udisk_read 0 0 2).1 = none) ∧
    WriteAlong (fun c _ _ => c.Supplied) twoBytes 0 (DInit 2) 0 [9] ∧
    (twoBytes 0).data.byte 1 = 2 ∧ ∀ version,
      ((((Trans.udisk_begin .big twoBytes (DInit 2)).call .big firstByte).udisk_commit .big version).disk 0).data.byte 1 = 0 := by
  refine ⟨Clean.DInit _ (by decide), ⟨.page (by decide) ⟨0, by decide, rfl, rfl⟩ fun hgot => absurd ?_ hgot, le_rfl, ?_⟩,
    .page (by decide) ⟨0, by decide, rfl, rfl⟩ (fun _ => ⟨1, by decide, rfl, rfl⟩) fun _ => .done _ _, rfl, fun version => ?_⟩
  · rfl
  · exact readPages_of_failed (by decide) rfl
  · have hcache : ((Trans.udisk_begin .big twoBytes (DInit 2)).call .big firstByte).cache =
        (writePage twoBytes (DInit 2) 0 0 [9]).2 := by
      unfold Trans.call Trans.udisk_write firstByte
      dsimp only
      rw [writePages_of_onePage (by decide) (by decide)]
      rfl
    rw [commit_data (by rfl) (by decide), hcache]
    change ((Cache.flushed _ _ (1 + 1)) 0).data.byte 1 = 0
    rw [flushed_succ, if_pos (by rfl), write_page_byte, if_pos ⟨by rfl, by rfl⟩]
    rfl

end dce.ubik.buffer
