import Dce.Bak.Blocks
import Dce.Bak.Text
import Mathlib.Data.List.GetD

open lib

namespace dce.bak

variable {db : memoryDB} {blocks : Use → List ℕ} {textType : ℕ}

/-- An octet of the text that is stored in some blocks. -/
def dataAt (db : memoryDB) (cells : List ℕ) (i : ℕ) : Byte :=
  (db.disk (cells.getD (i / BLOCK_DATA_SIZE) 0)).a (i % BLOCK_DATA_SIZE)

def Stores (db : memoryDB) (cells : List ℕ) (text : List Byte) : Prop :=
  ∀ i (hi : i < text.length), dataAt db cells i = text[i]

/-- The number of blocks that a text of this length is stored in. -/
def blocksFor (len : ℕ) : ℕ := max 1 ((len + (BLOCK_DATA_SIZE - 1)) / BLOCK_DATA_SIZE)

/-- The blocks of the database are those of its texts, among others. -/
structure Laid (db : memoryDB) (blocks : Use → List ℕ) : Prop where
  pool : Pool db blocks
  text : ∀ n, Chained db.next 0 (db.h.textBlock n).textAddr (blocks (.text n))
  newText : ∀ n, Chained db.next 0 (db.h.textBlock n).newTextAddr (blocks (.newText n))
  size : ∀ n, (db.h.textBlock n).size ≤ BLOCK_DATA_SIZE * (blocks (.text n)).length
  newsize : ∀ n, (db.h.textBlock n).newTextAddr ≠ 0 → (blocks (.newText n)).length = blocksFor (db.h.textBlock n).newsize

/-- Nothing is changed but the unused blocks, and the new one of a text. -/
structure Kept (textType : ℕ) (db : memoryDB) (blocks : Use → List ℕ) (db' : memoryDB) (blocks' : Use → List ℕ) : Prop where
  others : ∀ u, u ≠ .free → u ≠ .newText textType → blocks' u = blocks u
  disk : ∀ u, u ≠ .free → u ≠ .newText textType → ∀ a ∈ blocks u, db'.disk a = db.disk a
  textLocks : db'.h.textLocks = db.h.textLocks
  texts : ∀ n, n ≠ textType → db'.h.textBlock n = db.h.textBlock n
  version : (db'.h.textBlock textType).version = (db.h.textBlock textType).version
  size : (db'.h.textBlock textType).size = (db.h.textBlock textType).size
  textAddr : (db'.h.textBlock textType).textAddr = (db.h.textBlock textType).textAddr
  room : room db' blocks' + (blocks' (.newText textType)).length = room db blocks + (blocks (.newText textType)).length

/-- A text is being written: `written` of it is in its chain, when the copy of the last block is stored. -/
structure Writing (textType : ℕ) (db : memoryDB) (blocks : Use → List ℕ) (diskBlock : block) (diskBlockAddr : ℕ)
    (written : List Byte) : Prop where
  pool : Pool db blocks
  chain : Chained db.next 0 (db.h.textBlock textType).newTextAddr (blocks (.newText textType))
  next : diskBlock.h.next = 0
  cells : ∃ before, blocks (.newText textType) = before ++ [diskBlockAddr] ∧ before.length = written.length / BLOCK_DATA_SIZE
  stores : Stores (db.put diskBlockAddr diskBlock) (blocks (.newText textType)) written
  newsize : (db.h.textBlock textType).newsize = written.length

/-- A text is written as far as it has been saved. -/
structure Written (textType : ℕ) (db : memoryDB) (blocks : Use → List ℕ) (written : List Byte) : Prop where
  pool : Pool db blocks
  chain : Chained db.next 0 (db.h.textBlock textType).newTextAddr (blocks (.newText textType))
  length : (blocks (.newText textType)).length = blocksFor written.length
  stores : Stores db (blocks (.newText textType)) written
  newsize : (db.h.textBlock textType).newsize = written.length

namespace Kept

theorem refl (textType : ℕ) (db : memoryDB) (blocks : Use → List ℕ) : Kept textType db blocks db blocks :=
  ⟨fun _ _ _ => rfl, fun _ _ _ _ _ => rfl, rfl, fun _ _ => rfl, rfl, rfl, rfl, rfl⟩

theorem trans {db' db'' : memoryDB} {blocks' blocks'' : Use → List ℕ} (h : Kept textType db blocks db' blocks')
    (h' : Kept textType db' blocks' db'' blocks'') : Kept textType db blocks db'' blocks'' where
  others u hu hut := (h'.others u hu hut).trans (h.others u hu hut)
  disk u hu hut a ha := (h'.disk u hu hut a (h.others u hu hut ▸ ha)).trans (h.disk u hu hut a ha)
  textLocks := h'.textLocks.trans h.textLocks
  texts n hn := (h'.texts n hn).trans (h.texts n hn)
  version := h'.version.trans h.version
  size := h'.size.trans h.size
  textAddr := h'.textAddr.trans h.textAddr
  room := h'.room.trans h.room

end Kept

theorem BLOCK_DATA_SIZE_pos : 0 < BLOCK_DATA_SIZE := by decide

theorem Pool.length_le (hpool : Pool db blocks) (u : Use) : (blocks u).length ≤ db.turns := by
  have hsub : blocks u ⊆ List.range db.h.eofPtr := by
    intro a ha
    have hinside := (hpool.isBlock u a ha).inside
    unfold BLOCKSIZE at hinside
    exact List.mem_range.mpr (by omega)
  have hle := (List.subperm_of_subset (hpool.apart.nodup u) hsub).length_le
  rwa [List.length_range] at hle

theorem Pool.setTextBlock (hpool : Pool db blocks) (textType : ℕ) (tb : textBlock) : Pool (db.setTextBlock textType tb) blocks :=
  ⟨hpool.apart, hpool.isBlock, hpool.aligned, hpool.limit, hpool.free⟩

theorem Pool.put (hpool : Pool db blocks) {u : Use} (hu : u ≠ .free) {a : ℕ} (ha : a ∈ blocks u) (b : block) :
    Pool (db.put a b) blocks := by
  refine ⟨hpool.apart, hpool.isBlock, hpool.aligned, hpool.limit, hpool.free.congr fun c hc => ?_⟩
  have hca : c ≠ a := fun heq => hu (hpool.apart.unique ha (heq ▸ hc))
  change (Function.update db.disk a b c).h.next = _
  rw [Function.update_of_ne hca]
  rfl

theorem Kept.setTextBlock (tb : textBlock) (hversion : tb.version = (db.h.textBlock textType).version)
    (hsize : tb.size = (db.h.textBlock textType).size) (htextAddr : tb.textAddr = (db.h.textBlock textType).textAddr) :
    Kept textType db blocks (db.setTextBlock textType tb) blocks := by
  have hself : (db.setTextBlock textType tb).h.textBlock textType = tb := Function.update_self ..
  refine ⟨fun _ _ _ => rfl, fun _ _ _ _ _ => rfl, rfl, fun n hn => Function.update_of_ne hn .., ?_, ?_, ?_, rfl⟩
  · rw [hself, hversion]
  · rw [hself, hsize]
  · rw [hself, htextAddr]

theorem Kept.put (hpool : Pool db blocks) {a : ℕ} (ha : a ∈ blocks (.newText textType)) (b : block) :
    Kept textType db blocks (db.put a b) blocks := by
  refine ⟨fun _ _ _ => rfl, fun u _ hut c hc => ?_, rfl, fun _ _ => rfl, rfl, rfl, rfl, rfl⟩
  have hca : c ≠ a := fun heq => hut (hpool.apart.unique (heq ▸ hc) ha)
  exact Function.update_of_ne hca ..

theorem Kept.taken {db' : memoryDB} {a : ℕ} {free : List ℕ} (htaken : Taken db blocks (.newText textType) db' a free) :
    Kept textType db blocks db' (takenBlocks blocks (.newText textType) free a) := by
  have htextBlock := htaken.textBlock
  refine ⟨fun u hu hut => takenBlocks_of_ne free hut hu, fun u hu _ c hc => ?_, htaken.textLocks, fun n _ => ?_, ?_, ?_, ?_, ?_⟩
  · have hca : c ≠ a := fun heq => htaken.fresh u hu (heq ▸ hc)
    rw [htaken.disk, Function.update_of_ne hca]
  · rw [htextBlock]
  · rw [htextBlock]
  · rw [htextBlock]
  · rw [htextBlock]
  · rw [← htaken.room, takenBlocks_self, List.length_append, List.length_singleton]
    omega

theorem Stores.congr {db' : memoryDB} {cells cells' : List ℕ} {text : List Byte} (h : Stores db cells text)
    (hsame : ∀ k, k * BLOCK_DATA_SIZE < text.length →
      (db'.disk (cells'.getD k 0)).a = (db.disk (cells.getD k 0)).a) : Stores db' cells' text := by
  intro i hi
  have hk : i / BLOCK_DATA_SIZE * BLOCK_DATA_SIZE < text.length := Nat.lt_of_le_of_lt (Nat.div_mul_le_self ..) hi
  rw [dataAt, hsame _ hk]
  exact h i hi

theorem Stores.write {before : List ℕ} {a : ℕ} {b : block} {written chunk : List Byte}
    (h : Stores (db.put a b) (before ++ [a]) written) (ha : a ∉ before)
    (hlength : before.length = written.length / BLOCK_DATA_SIZE)
    (hchunk : written.length % BLOCK_DATA_SIZE + chunk.length ≤ BLOCK_DATA_SIZE) :
    Stores (db.put a { b with a := b.a.write (written.length % BLOCK_DATA_SIZE) chunk }) (before ++ [a])
      (written ++ chunk) := by
  have hpos := BLOCK_DATA_SIZE_pos
  have hsplit := Nat.div_add_mod written.length BLOCK_DATA_SIZE
  intro i hi
  rw [List.length_append] at hi
  by_cases hblock : i / BLOCK_DATA_SIZE < before.length
  · -- one of the blocks before the last
    have hold : i < written.length := by
      have hlt := Nat.lt_mul_of_div_lt hblock hpos
      rw [hlength, Nat.mul_comm] at hlt
      omega
    have hcell : (before ++ [a]).getD (i / BLOCK_DATA_SIZE) 0 = before[i / BLOCK_DATA_SIZE] := by
      rw [List.getD_append _ _ _ _ hblock, List.getD_eq_getElem _ _ hblock]
    have hne : before[i / BLOCK_DATA_SIZE] ≠ a := fun heq => ha (heq ▸ List.getElem_mem hblock)
    have hthis := h i hold
    rw [dataAt, hcell] at hthis
    rw [dataAt, hcell, List.getElem_append_left hold, ← hthis]
    change ((Function.update db.disk a _) _).a _ = ((Function.update db.disk a _) _).a _
    rw [Function.update_of_ne hne, Function.update_of_ne hne]
  · have hblock' : i / BLOCK_DATA_SIZE = before.length := by
      have hlt : i < (before.length + 1) * BLOCK_DATA_SIZE := by
        rw [Nat.add_mul, Nat.one_mul, Nat.mul_comm, hlength]
        omega
      have := (Nat.div_lt_iff_lt_mul hpos).mpr hlt
      omega
    have hmod := Nat.div_add_mod i BLOCK_DATA_SIZE
    rw [hblock', hlength] at hmod
    have hcell : (before ++ [a]).getD (i / BLOCK_DATA_SIZE) 0 = a := by
      rw [hblock']
      simp
    rw [dataAt, hcell]
    change ((Function.update db.disk a _) a).a _ = _
    rw [Function.update_self]
    dsimp only
    by_cases hold : i < written.length
    · have hthis := h i hold
      rw [dataAt, hcell] at hthis
      change ((Function.update db.disk a _) a).a _ = _ at hthis
      rw [Function.update_self] at hthis
      rw [Memory.write_outside _ (.inl (by omega)), List.getElem_append_left hold, hthis]
    · have hk : i - written.length < chunk.length := by omega
      have hat : i % BLOCK_DATA_SIZE = written.length % BLOCK_DATA_SIZE + (i - written.length) := by omega
      rw [hat, (Memory.holds_write b.a _ chunk).get hk, List.getElem_append_right (Nat.not_lt.mp hold)]

section Loop

variable {diskBlock : block} {diskBlockAddr : ℕ} {written chunk : List Byte}

/-- The database when some more of a text is put into the last block. -/
def withChunk (db : memoryDB) (textType : ℕ) (diskBlock : block) (diskBlockAddr offset : ℕ) (chunk : List Byte) : memoryDB :=
  (db.setTextBlock textType
    { db.h.textBlock textType with newsize := (db.h.textBlock textType).newsize + chunk.length }).put diskBlockAddr
    { diskBlock with a := diskBlock.a.write (offset % BLOCK_DATA_SIZE) chunk }

theorem withChunk_textBlock : (withChunk db textType diskBlock diskBlockAddr written.length chunk).h.textBlock textType =
    { db.h.textBlock textType with newsize := (db.h.textBlock textType).newsize + chunk.length } :=
  Function.update_self ..

theorem withChunk_disk_self : (withChunk db textType diskBlock diskBlockAddr written.length chunk).disk diskBlockAddr =
    { diskBlock with a := diskBlock.a.write (written.length % BLOCK_DATA_SIZE) chunk } :=
  Function.update_self ..

theorem withChunk_disk_of_ne {a : ℕ} (ha : a ≠ diskBlockAddr) :
    (withChunk db textType diskBlock diskBlockAddr written.length chunk).disk a = db.disk a :=
  Function.update_of_ne ha ..

namespace Writing

variable (h : Writing textType db blocks diskBlock diskBlockAddr written)
include h

theorem notMem {before : List ℕ} (hcells : blocks (.newText textType) = before ++ [diskBlockAddr]) : diskBlockAddr ∉ before := by
  have hnodup := h.pool.apart.nodup (.newText textType)
  rw [hcells] at hnodup
  exact fun hmem => (List.nodup_append.mp hnodup).2.2 _ hmem _ (by simp) rfl

theorem mem : diskBlockAddr ∈ blocks (.newText textType) := by
  obtain ⟨before, hcells, -⟩ := h.cells
  simp [hcells]

variable (chunk) in
theorem withChunk_pool : Pool (withChunk db textType diskBlock diskBlockAddr written.length chunk) blocks :=
  (h.pool.setTextBlock _ _).put (by simp) h.mem _

variable (chunk) in
theorem withChunk_kept : Kept textType db blocks (withChunk db textType diskBlock diskBlockAddr written.length chunk) blocks :=
  (Kept.setTextBlock { db.h.textBlock textType with newsize := (db.h.textBlock textType).newsize + chunk.length }
    rfl rfl rfl).trans (Kept.put (h.pool.setTextBlock _ _) h.mem _)

variable (chunk) in
theorem withChunk_next (a : ℕ) : (withChunk db textType diskBlock diskBlockAddr written.length chunk).next a = db.next a := by
  by_cases ha : a = diskBlockAddr
  · subst ha
    obtain ⟨before, hcells, -⟩ := h.cells
    have hchain := h.chain
    rw [hcells] at hchain
    rw [memoryDB.next, withChunk_disk_self, hchain.last]
    exact h.next
  · rw [memoryDB.next, withChunk_disk_of_ne ha]
    rfl

theorem finish (hchunk : written.length % BLOCK_DATA_SIZE + chunk.length ≤ BLOCK_DATA_SIZE)
    (hgrows : chunk ≠ [] ∨ written.length % BLOCK_DATA_SIZE ≠ 0 ∨ written = []) :
    Written textType (withChunk db textType diskBlock diskBlockAddr written.length chunk) blocks (written ++ chunk) := by
  obtain ⟨before, hcells, hbefore⟩ := h.cells
  have hnot := h.notMem hcells
  refine ⟨h.withChunk_pool chunk, ?_, ?_, ?_, ?_⟩
  · rw [withChunk_textBlock]
    exact h.chain.congr fun a _ => h.withChunk_next chunk a
  · have hpositive : chunk ≠ [] → 0 < chunk.length := List.length_pos_iff.mpr
    have hempty : written = [] → written.length = 0 := fun h => by rw [h, List.length_nil]
    rw [hcells, List.length_append, List.length_singleton, hbefore, blocksFor, List.length_append]
    unfold BLOCK_DATA_SIZE BLOCKSIZE sizeof_blockHeader at *
    rcases hgrows with hne | hne | hnil
    · have := hpositive hne
      omega
    · omega
    · have := hempty hnil
      omega
  · have hstores := h.stores
    rw [hcells] at hstores ⊢
    exact (hstores.write hnot hbefore hchunk).congr fun _ _ => rfl
  · rw [withChunk_textBlock]
    dsimp only
    rw [h.newsize, List.length_append]

theorem grow (hfull : written.length % BLOCK_DATA_SIZE + chunk.length = BLOCK_DATA_SIZE) (hroom : 0 < room db blocks) :
    ∃ db₂ a free db₃, (withChunk db textType diskBlock diskBlockAddr written.length chunk).AllocBlock = .ok (db₂, block.zero, a) ∧
      db₂.dbwrite_next diskBlockAddr a = .ok db₃ ∧
      Writing textType db₃ (takenBlocks blocks (.newText textType) free a) ⟨⟨.text_BLOCK, 0⟩, block.zero.a⟩ a
        (written ++ chunk) ∧
      Kept textType db blocks db₃ (takenBlocks blocks (.newText textType) free a) := by
  obtain ⟨before, hcells, hbefore⟩ := h.cells
  obtain ⟨db₂, a, free, halloc, htaken⟩ := AllocBlock_spec (h.withChunk_pool chunk) hroom
    (u := .newText textType) (by simp)
  have hmem : diskBlockAddr ∈ takenBlocks blocks (.newText textType) free a (.newText textType) := by
    rw [takenBlocks_self]
    exact List.mem_append_left _ h.mem
  have hblock := htaken.pool.isBlock _ _ hmem
  have hnew : IsBlock db₂.h.eofPtr a := htaken.pool.isBlock (.newText textType) a (by rw [takenBlocks_self]; simp)
  have hnot := h.notMem hcells
  have hfresh : ∀ c ∈ blocks (.newText textType), c ≠ a := fun c hc heq => htaken.fresh _ (by simp) (heq ▸ hc)
  have hlink := memoryDB.dbwrite_next_ok hblock htaken.pool.limit a
  refine ⟨db₂, a, free, _, halloc, hlink, ⟨?_, ?_, rfl, ?_, ?_, ?_⟩, ?_⟩
  · exact htaken.pool.put (by simp) hmem _
  · rw [takenBlocks_self, hcells, List.append_assoc]
    change Chained _ 0 (db₂.h.textBlock textType).newTextAddr _
    rw [htaken.textBlock, withChunk_textBlock]
    have hchain := h.chain
    rw [hcells] at hchain
    refine hchain.append (fun c hc => ?_) ?_
    · have hc' : c ∈ blocks (.newText textType) := hcells ▸ List.mem_append_left _ hc
      have hcd : c ≠ diskBlockAddr := fun heq => hnot (heq ▸ hc)
      change (Function.update db₂.disk diskBlockAddr _ c).h.next = _
      rw [Function.update_of_ne hcd, htaken.disk, Function.update_of_ne (hfresh c hc')]
      exact h.withChunk_next chunk c
    · have hnext : (db₂.put diskBlockAddr { db₂.disk diskBlockAddr with h := { (db₂.disk diskBlockAddr).h with next := a } }).next
          diskBlockAddr = a := by
        change (Function.update db₂.disk diskBlockAddr _ diskBlockAddr).h.next = _
        rw [Function.update_self]
      have hlast : (db₂.put diskBlockAddr { db₂.disk diskBlockAddr with h := { (db₂.disk diskBlockAddr).h with next := a } }).next
          a = 0 := by
        change (Function.update db₂.disk diskBlockAddr _ a).h.next = _
        rw [Function.update_of_ne (hfresh _ h.mem).symm, htaken.disk, Function.update_self]
        rfl
      rw [hnext]
      exact ⟨rfl, hnew.ne_zero, hlast⟩
  · refine ⟨blocks (.newText textType), takenBlocks_self .., ?_⟩
    have hpos := BLOCK_DATA_SIZE_pos
    have hsplit := Nat.div_add_mod written.length BLOCK_DATA_SIZE
    have htotal : written.length + chunk.length = BLOCK_DATA_SIZE * (written.length / BLOCK_DATA_SIZE + 1) := by
      rw [Nat.mul_add, Nat.mul_one]
      omega
    rw [hcells, List.length_append, List.length_append, List.length_singleton, htotal, Nat.mul_div_cancel_left _ hpos, hbefore]
  · have hstores := h.stores
    rw [hcells] at hstores
    refine (hstores.write hnot hbefore (Nat.le_of_eq hfull)).congr fun k hk => ?_
    rw [← hcells]
    have hkcells : k < (blocks (.newText textType)).length := by
      have hsplit := Nat.div_add_mod written.length BLOCK_DATA_SIZE
      rw [List.length_append] at hk
      have hlt : k * BLOCK_DATA_SIZE < (written.length / BLOCK_DATA_SIZE + 1) * BLOCK_DATA_SIZE := by
        rw [Nat.add_mul, Nat.one_mul, Nat.mul_comm (written.length / BLOCK_DATA_SIZE)]
        omega
      have := Nat.lt_of_mul_lt_mul_right hlt
      rw [hcells, List.length_append, List.length_singleton, hbefore]
      omega
    have hc := List.getElem_mem hkcells
    rw [takenBlocks_self, List.getD_append _ _ _ _ hkcells, List.getD_eq_getElem _ _ hkcells]
    change ((Function.update (Function.update db₂.disk diskBlockAddr _) a _) _).a = ((Function.update db.disk diskBlockAddr _) _).a
    rw [Function.update_of_ne (hfresh _ hc)]
    by_cases hcd : (blocks (.newText textType))[k] = diskBlockAddr
    · rw [hcd, Function.update_self, Function.update_self]
      dsimp only
      rw [htaken.disk, Function.update_of_ne (hfresh _ h.mem), withChunk_disk_self]
    · rw [Function.update_of_ne hcd, Function.update_of_ne hcd, htaken.disk, Function.update_of_ne (hfresh _ hc),
        withChunk_disk_of_ne hcd]
  · change (db₂.h.textBlock textType).newsize = _
    rw [htaken.textBlock, withChunk_textBlock, List.length_append, h.newsize]
  · have hkept := h.withChunk_kept chunk
    have hput := Kept.put htaken.pool hmem { db₂.disk diskBlockAddr with h := { (db₂.disk diskBlockAddr).h with next := a } }
    exact (hkept.trans (Kept.taken htaken)).trans hput

theorem full (hroom : room db blocks = 0) :
    (withChunk db textType diskBlock diskBlockAddr written.length chunk).AllocBlock = .error .ubik :=
  AllocBlock_full (h.withChunk_pool chunk) hroom

end Writing

/-- The blocks that are left for a text, with those that it has. -/
def available (textType : ℕ) (db : memoryDB) (blocks : Use → List ℕ) : ℕ :=
  room db blocks + (blocks (.newText textType)).length

theorem saveLoop_spec (fuel : ℕ) {text : List Byte} (h : Writing textType db blocks diskBlock diskBlockAddr written)
    (hfuel : text.length < fuel) (hgrows : text ≠ [] ∨ written.length % BLOCK_DATA_SIZE ≠ 0 ∨ written = []) :
    (∃ db' blocks', saveLoop textType fuel db diskBlock diskBlockAddr written.length text = .ok db' ∧
      Written textType db' blocks' (written ++ text) ∧ Kept textType db blocks db' blocks') ∨
    (saveLoop textType fuel db diskBlock diskBlockAddr written.length text = .error .ubik ∧
      available textType db blocks < blocksFor (written.length + text.length)) := by
  induction fuel generalizing db blocks diskBlock diskBlockAddr written text with
  | zero => omega
  | succ fuel ih =>
    have hpos := BLOCK_DATA_SIZE_pos
    have hmod := Nat.mod_lt written.length hpos
    obtain ⟨chunkSize, hchunkSize⟩ : ∃ n, n = min (BLOCK_DATA_SIZE - written.length % BLOCK_DATA_SIZE) text.length := ⟨_, rfl⟩
    have hlength : (text.take chunkSize).length = chunkSize := by
      rw [List.length_take]
      omega
    have hdb : (db.setTextBlock textType { db.h.textBlock textType with
        newsize := (db.h.textBlock textType).newsize + chunkSize }).put diskBlockAddr
        { diskBlock with a := diskBlock.a.write (written.length % BLOCK_DATA_SIZE) (text.take chunkSize) } =
        withChunk db textType diskBlock diskBlockAddr written.length (text.take chunkSize) := by
      rw [withChunk, hlength]
    have hblock := h.pool.isBlock _ _ h.mem
    have hwrite : ∀ b, (db.setTextBlock textType { db.h.textBlock textType with
        newsize := (db.h.textBlock textType).newsize + chunkSize }).dbwrite_block diskBlockAddr b = .ok _ :=
      fun b => (db.setTextBlock textType _).dbwrite_block_ok hblock h.pool.limit b
    rw [saveLoop]
    dsimp only
    rw [← hchunkSize, hwrite, hdb]
    by_cases hrest : 0 < text.length - chunkSize
    · rw [if_pos hrest, Stop.ok_bind]
      have hfull : written.length % BLOCK_DATA_SIZE + (text.take chunkSize).length = BLOCK_DATA_SIZE := by omega
      have hdrop : (text.drop chunkSize).length = text.length - chunkSize := List.length_drop
      have htext : written ++ text.take chunkSize ++ text.drop chunkSize = written ++ text := by
        rw [List.append_assoc, List.take_append_drop]
      by_cases hroom : room db blocks = 0
      · -- the text goes on behind the last block that there is
        refine .inr ⟨by rw [h.full hroom, Stop.error_bind], ?_⟩
        obtain ⟨before, hcells, hbefore⟩ := h.cells
        rw [available, hroom, hcells, List.length_append, List.length_singleton, hbefore, blocksFor]
        unfold BLOCK_DATA_SIZE BLOCKSIZE sizeof_blockHeader at *
        omega
      · obtain ⟨db₂, a, free, db₃, halloc, hlink, hwriting, hkept⟩ := h.grow hfull (Nat.pos_of_ne_zero hroom)
        have hmore : text.drop chunkSize ≠ [] := List.ne_nil_of_length_pos (by omega)
        have hloop := ih hwriting (by omega) (.inl hmore)
        have hoffset : (written ++ text.take chunkSize).length = written.length + chunkSize := by
          rw [List.length_append, hlength]
        have hsame : available textType db₃ (takenBlocks blocks (.newText textType) free a) = available textType db blocks :=
          hkept.room
        rw [halloc, Stop.ok_bind]
        dsimp only
        rw [hlink, Stop.ok_bind]
        rw [hoffset, htext, hsame, hdrop] at hloop
        rcases hloop with ⟨db', blocks', hok, hwritten, hkept'⟩ | ⟨herror, hfew⟩
        · exact .inl ⟨db', blocks', hok, hwritten, hkept.trans hkept'⟩
        · exact .inr ⟨herror, by rwa [Nat.add_assoc, Nat.add_sub_cancel' (by omega)] at hfew⟩
    · rw [if_neg hrest]
      have htake : text.take chunkSize = text := List.take_of_length_le (by omega)
      rw [htake]
      exact .inl ⟨_, blocks, rfl, h.finish (by omega) hgrows, h.withChunk_kept text⟩

end Loop

end dce.bak
