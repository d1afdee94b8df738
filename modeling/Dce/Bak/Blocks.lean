import Dce.Bak.Database

open lib

namespace dce.bak

variable {db : memoryDB} {blocks : Use → List ℕ} {a : ℕ}

namespace IsBlock

variable {eofPtr : ℕ}

theorem le (h : IsBlock eofPtr a) : sizeof_dbHeader ≤ a := by
  obtain ⟨k, rfl⟩ := h.aligned
  exact Nat.le_add_right _ _

theorem ne_zero (h : IsBlock eofPtr a) : a ≠ 0 := by
  have hle := h.le
  unfold sizeof_dbHeader at hle
  omega

theorem blockBase (h : IsBlock eofPtr a) : memoryDB.BlockBase a = a := by
  obtain ⟨k, rfl⟩ := h.aligned
  have hpos : 0 < BLOCKSIZE := by decide
  rw [memoryDB.BlockBase, Nat.add_sub_cancel_left, Nat.mul_div_cancel _ hpos, Nat.add_comm]

theorem mono {eofPtr eofPtr' : ℕ} (h : IsBlock eofPtr a) (hle : eofPtr ≤ eofPtr') : IsBlock eofPtr' a :=
  ⟨h.aligned, Nat.le_trans h.inside hle⟩

end IsBlock

/-- The blocks that can still be had: those not in use, and those that fit in behind the last one. -/
def room (db : memoryDB) (blocks : Use → List ℕ) : ℕ :=
  (blocks .free).length + (fileLimit - db.h.eofPtr) / BLOCKSIZE

namespace memoryDB

theorem dbwrite_ok {pos len : ℕ} {inHeader : Bool} {written : memoryDB} (hheader : inHeader = true ∨ sizeof_dbHeader ≤ pos)
    (heof : pos < db.h.eofPtr) (hlimit : pos + len ≤ fileLimit) : db.dbwrite pos inHeader len written = .ok written := by
  have hrefused : ¬((pos < sizeof_dbHeader ∧ inHeader = false) ∨ db.h.eofPtr ≤ pos) := by
    rintro (⟨hlt, hfalse⟩ | hle)
    · rcases hheader with htrue | hle
      · exact absurd (htrue.symm.trans hfalse) (by decide)
      · omega
    · omega
  rw [dbwrite, if_neg hrefused, if_neg (Nat.not_lt.mpr hlimit)]

theorem set_header_word_ok (pos : ℕ) (hpos : pos + 4 ≤ sizeof_dbHeader) (heof : sizeof_dbHeader ≤ db.h.eofPtr) :
    db.set_header_word pos = .ok db := by
  refine dbwrite_ok (.inl rfl) (by omega) ?_
  unfold sizeof_dbHeader at hpos
  unfold fileLimit
  omega

variable (h : IsBlock db.h.eofPtr a)

include h

theorem dbread_ok : db.dbread a = .ok (db.disk a) := by
  have hinside := h.inside
  unfold BLOCKSIZE at hinside
  rw [dbread, if_neg (by omega)]

variable (hlimit : db.h.eofPtr ≤ fileLimit)

include hlimit

theorem dbwrite_block_ok (b : block) : db.dbwrite_block a b = .ok (db.put a b) := by
  have hinside := h.inside
  refine dbwrite_ok (.inr h.le) ?_ (Nat.le_trans hinside hlimit)
  unfold BLOCKSIZE at hinside
  omega

theorem dbwrite_blockHeader_ok (bh : blockHeader) : db.dbwrite_blockHeader a bh = .ok (db.put a { db.disk a with h := bh }) := by
  have hinside := h.inside
  unfold BLOCKSIZE at hinside
  refine dbwrite_ok (.inr h.le) (by omega) ?_
  unfold sizeof_blockHeader
  omega

theorem dbwrite_next_ok (next : ℕ) :
    db.dbwrite_next a next = .ok (db.put a { db.disk a with h := { (db.disk a).h with next := next } }) := by
  have hinside := h.inside
  have hle := h.le
  unfold BLOCKSIZE at hinside
  exact dbwrite_ok (.inr (by omega)) (by omega) (by omega)

end memoryDB

theorem Pool.header_le (h : Pool db blocks) : sizeof_dbHeader ≤ db.h.eofPtr := by
  obtain ⟨k, hk⟩ := h.aligned
  omega

/-- The uses of the blocks when one more is put to a use, and the unused ones are `free`. -/
def takenBlocks (blocks : Use → List ℕ) (u : Use) (free : List ℕ) (a : ℕ) : Use → List ℕ :=
  Function.update (Function.update blocks .free free) u (blocks u ++ [a])

theorem mem_takenBlocks {u v : Use} {free : List ℕ} {b : ℕ} (hfree : ∀ c ∈ free, c ∈ blocks .free)
    (hb : b ∈ takenBlocks blocks u free a v) : b ∈ blocks v ∨ b = a := by
  by_cases hvu : v = u
  · subst hvu
    simpa [takenBlocks] using hb
  · rw [takenBlocks, Function.update_of_ne hvu] at hb
    by_cases hv : v = .free
    · subst hv
      rw [Function.update_self] at hb
      exact .inl (hfree b hb)
    · rw [Function.update_of_ne hv] at hb
      exact .inl hb

variable {u : Use}

theorem takenBlocks_free (hu : u ≠ .free) (free : List ℕ) : takenBlocks blocks u free a .free = free := by
  rw [takenBlocks, Function.update_of_ne hu.symm, Function.update_self]

theorem takenBlocks_self (u : Use) (free : List ℕ) : takenBlocks blocks u free a u = blocks u ++ [a] :=
  Function.update_self ..

theorem takenBlocks_of_ne {u v : Use} (free : List ℕ) (hvu : v ≠ u) (hv : v ≠ .free) :
    takenBlocks blocks u free a v = blocks v := by
  rw [takenBlocks, Function.update_of_ne hvu, Function.update_of_ne hv]

/-- A block that comes from the unused ones or from behind the last one is put to a use. -/
structure Taken (db : memoryDB) (blocks : Use → List ℕ) (u : Use) (db' : memoryDB) (a : ℕ) (free : List ℕ) : Prop where
  pool : Pool db' (takenBlocks blocks u free a)
  fresh : ∀ v, v ≠ .free → a ∉ blocks v
  disk : db'.disk = Function.update db.disk a block.zero
  textLocks : db'.h.textLocks = db.h.textLocks
  textBlock : db'.h.textBlock = db.h.textBlock
  room : room db' (takenBlocks blocks u free a) + 1 = room db blocks

theorem AllocBlock_reuse {b : ℕ} {free : List ℕ} (hpool : Pool db blocks) (hfree : blocks .free = b :: free)
    (hu : u ≠ .free) : ∃ db', db.AllocBlock = .ok (db', block.zero, b) ∧ Taken db blocks u db' b free := by
  have hchain := hpool.free
  rw [hfree] at hchain
  obtain ⟨hptr, hne, hrest⟩ := hchain
  have hmem : b ∈ blocks .free := hfree ▸ List.mem_cons_self
  have hblock := hpool.isBlock .free b hmem
  have hgone : b ∉ free := by
    have hnodup := hpool.apart.nodup .free
    rw [hfree] at hnodup
    exact (List.nodup_cons.mp hnodup).1
  have hset := (db.setFreePtr (db.disk b).h.next).set_header_word_ok memoryDB.freePtr_pos (by decide) hpool.header_le
  have hwrite := (db.setFreePtr (db.disk b).h.next).dbwrite_block_ok hblock hpool.limit block.zero
  refine ⟨(db.setFreePtr (db.disk b).h.next).put b block.zero, ?_, ?_⟩
  · rw [memoryDB.AllocBlock, if_neg (hptr ▸ hne), hptr, memoryDB.dbread_ok hblock, Stop.ok_bind, hset, Stop.ok_bind, hwrite,
      Stop.ok_bind]
  · have hsub : ∀ c ∈ free, c ∈ blocks .free := fun c hc => hfree ▸ List.mem_cons_of_mem b hc
    refine ⟨⟨?_, ?_, hpool.aligned, hpool.limit, ?_⟩, fun v hv hbv => hv (hpool.apart.unique hbv hmem), rfl, rfl, rfl, ?_⟩
    · refine hpool.apart.move (a := b) (x := .free) (y := u) hu.symm ?_ ?_ fun v hv hvu => ?_
      · rw [takenBlocks_free hu, hfree]
      · rw [takenBlocks_self]
        exact List.perm_append_singleton b _
      · rw [takenBlocks_of_ne free hvu hv]
    · intro v c hc
      rcases mem_takenBlocks hsub hc with hc | rfl
      · exact hpool.isBlock v c hc
      · exact hblock
    · rw [takenBlocks_free hu]
      refine Chained.congr hrest fun c hc => ?_
      have hcb : c ≠ b := fun heq => hgone (heq ▸ hc)
      change (Function.update db.disk b block.zero c).h.next = _
      rw [Function.update_of_ne hcb]
      rfl
    · rw [room, room, takenBlocks_free hu, hfree, List.length_cons]
      change free.length + (fileLimit - db.h.eofPtr) / BLOCKSIZE + 1 = _
      omega

theorem AllocBlock_extend (hpool : Pool db blocks) (hfree : blocks .free = []) (hroom : db.h.eofPtr + BLOCKSIZE ≤ fileLimit)
    (hu : u ≠ .free) : ∃ db', db.AllocBlock = .ok (db', block.zero, db.h.eofPtr) ∧
      Taken db blocks u db' db.h.eofPtr [] := by
  have hchain := hpool.free
  rw [hfree, Chained.nil_iff] at hchain
  obtain ⟨k, hk⟩ := hpool.aligned
  have hheader : sizeof_dbHeader ≤ db.h.eofPtr + BLOCKSIZE := Nat.le_trans hpool.header_le (Nat.le_add_right _ _)
  have hset := (db.setEofPtr (db.h.eofPtr + BLOCKSIZE)).set_header_word_ok memoryDB.eofPtr_pos (by decide) hheader
  have hblock : IsBlock (db.h.eofPtr + BLOCKSIZE) db.h.eofPtr := ⟨⟨k, hk⟩, Nat.le_refl _⟩
  have hwrite := (db.setEofPtr (db.h.eofPtr + BLOCKSIZE)).dbwrite_block_ok hblock hroom block.zero
  have hfresh : ∀ v, db.h.eofPtr ∉ blocks v := by
    intro v hmem
    have hinside := (hpool.isBlock v _ hmem).inside
    unfold BLOCKSIZE at hinside
    omega
  refine ⟨(db.setEofPtr (db.h.eofPtr + BLOCKSIZE)).put db.h.eofPtr block.zero, ?_, ?_⟩
  · rw [memoryDB.AllocBlock, if_pos hchain, hset, Stop.ok_bind, hwrite, Stop.ok_bind]
  · refine ⟨⟨?_, ?_, ⟨k + 1, ?_⟩, hroom, ?_⟩, fun v _ => hfresh v, rfl, rfl, rfl, ?_⟩
    · refine hpool.apart.add (y := u) hfresh ?_ fun v hvu => ?_
      · rw [takenBlocks_self]
        exact List.perm_append_singleton _ _
      · by_cases hv : v = .free
        · rw [hv, takenBlocks_free hu, hfree]
        · rw [takenBlocks_of_ne [] hvu hv]
    · intro v c hc
      rcases mem_takenBlocks (fun c hc => absurd hc List.not_mem_nil) hc with hc | rfl
      · exact (hpool.isBlock v c hc).mono (Nat.le_add_right _ _)
      · exact hblock
    · change db.h.eofPtr + BLOCKSIZE = _
      rw [hk, Nat.add_mul, Nat.one_mul, Nat.add_assoc]
    · rw [takenBlocks_free hu]
      exact hchain
    · rw [room, room, takenBlocks_free hu, hfree, List.length_nil]
      change 0 + (fileLimit - (db.h.eofPtr + BLOCKSIZE)) / BLOCKSIZE + 1 = _
      unfold BLOCKSIZE at *
      omega

theorem AllocBlock_spec (hpool : Pool db blocks) (hroom : 0 < room db blocks) (hu : u ≠ .free) :
    ∃ db' a free, db.AllocBlock = .ok (db', block.zero, a) ∧ Taken db blocks u db' a free := by
  cases hfree : blocks .free with
  | nil =>
    have hextend : db.h.eofPtr + BLOCKSIZE ≤ fileLimit := by
      rw [room, hfree, List.length_nil] at hroom
      unfold BLOCKSIZE at *
      omega
    obtain ⟨db', hok, htaken⟩ := AllocBlock_extend hpool hfree hextend hu
    exact ⟨db', db.h.eofPtr, [], hok, htaken⟩
  | cons b free =>
    obtain ⟨db', hok, htaken⟩ := AllocBlock_reuse hpool hfree hu
    exact ⟨db', b, free, hok, htaken⟩

theorem AllocBlock_full (hpool : Pool db blocks) (hroom : room db blocks = 0) : db.AllocBlock = .error .ubik := by
  have hlength : (blocks .free).length = 0 := (Nat.add_eq_zero_iff.mp hroom).1
  have hchain := hpool.free
  rw [List.eq_nil_of_length_eq_zero hlength, Chained.nil_iff] at hchain
  have hheader : sizeof_dbHeader ≤ db.h.eofPtr + BLOCKSIZE := Nat.le_trans hpool.header_le (Nat.le_add_right _ _)
  have hset := (db.setEofPtr (db.h.eofPtr + BLOCKSIZE)).set_header_word_ok memoryDB.eofPtr_pos (by decide) hheader
  have hallowed : ¬((db.h.eofPtr < sizeof_dbHeader ∧ false = false) ∨ db.h.eofPtr + BLOCKSIZE ≤ db.h.eofPtr) := by
    have hle := hpool.header_le
    unfold BLOCKSIZE
    omega
  have hlimit : fileLimit < db.h.eofPtr + BLOCKSIZE := by
    have hle := hpool.limit
    rw [room, hlength] at hroom
    unfold BLOCKSIZE at *
    omega
  have hwrite : (db.setEofPtr (db.h.eofPtr + BLOCKSIZE)).dbwrite_block db.h.eofPtr block.zero = .error .ubik := by
    rw [memoryDB.dbwrite_block, memoryDB.dbwrite]
    exact (if_neg hallowed).trans (if_pos hlimit)
  rw [memoryDB.AllocBlock, if_pos hchain, hset, Stop.ok_bind, hwrite, Stop.error_bind]

/-- Blocks `cells` that were in use for `u` have become unused. -/
structure Freed (db : memoryDB) (blocks : Use → List ℕ) (u : Use) (cells : List ℕ) (db' : memoryDB)
    (blocks' : Use → List ℕ) : Prop where
  pool : Pool db' blocks'
  free : blocks' .free = cells.reverse ++ blocks .free
  left : blocks u = cells ++ blocks' u
  others : ∀ v, v ≠ u → v ≠ .free → blocks' v = blocks v
  disk : ∀ a, a ∉ cells → db'.disk a = db.disk a
  eofPtr : db'.h.eofPtr = db.h.eofPtr
  textLocks : db'.h.textLocks = db.h.textLocks
  textBlock : db'.h.textBlock = db.h.textBlock

theorem Freed.room {cells : List ℕ} {db' : memoryDB} {blocks' : Use → List ℕ} (h : Freed db blocks u cells db' blocks') :
    room db' blocks' = room db blocks + cells.length := by
  rw [bak.room, bak.room, h.free, h.eofPtr, List.length_append, List.length_reverse]
  omega

theorem FreeBlock_spec (hpool : Pool db blocks) (hu : u ≠ .free) {rest : List ℕ} (hcells : blocks u = a :: rest) :
    ∃ db' blocks', db.FreeBlock a = .ok db' ∧ Freed db blocks u [a] db' blocks' := by
  have hmem : a ∈ blocks u := hcells ▸ List.mem_cons_self
  have hblock := hpool.isBlock u a hmem
  have hset := (db.setFreePtr a).set_header_word_ok memoryDB.freePtr_pos (by decide) hpool.header_le
  have hwrite := (db.setFreePtr a).dbwrite_blockHeader_ok hblock hpool.limit ⟨.free_BLOCK, db.h.freePtr⟩
  have hnot : a ∉ blocks .free := fun hfree => hu (hpool.apart.unique hmem hfree)
  let blocks' := Function.update (Function.update blocks u rest) .free (a :: blocks .free)
  have hthis : blocks' u = rest := (Function.update_of_ne hu ..).trans (Function.update_self ..)
  have hfree : blocks' .free = a :: blocks .free := Function.update_self ..
  have hother : ∀ v, v ≠ u → v ≠ .free → blocks' v = blocks v := fun v hvu hv =>
    (Function.update_of_ne hv ..).trans (Function.update_of_ne hvu ..)
  have hsame : ∀ c, c ≠ a → ((db.setFreePtr a).put a { db.disk a with h := ⟨.free_BLOCK, db.h.freePtr⟩ }).disk c = db.disk c :=
    fun c hc => Function.update_of_ne hc ..
  refine ⟨(db.setFreePtr a).put a { db.disk a with h := ⟨.free_BLOCK, db.h.freePtr⟩ }, blocks', ?_, ?_, hfree, ?_, hother, ?_,
    rfl, rfl, rfl⟩
  · rw [memoryDB.FreeBlock, if_neg (not_not_intro hblock.blockBase.symm), hset, Stop.ok_bind]
    exact hwrite
  · refine ⟨?_, ?_, hpool.aligned, hpool.limit, ?_⟩
    · refine hpool.apart.move (a := a) (x := u) (y := .free) hu ?_ ?_ fun v hvu hv => ?_
      · rw [hcells, hthis]
      · rw [hfree]
      · rw [hother v hvu hv]
    · intro v c hc
      by_cases hv : v = .free
      · subst hv
        rw [hfree] at hc
        rcases List.mem_cons.mp hc with rfl | hc
        · exact hblock
        · exact hpool.isBlock .free c hc
      · by_cases hvu : v = u
        · subst hvu
          rw [hthis] at hc
          exact hpool.isBlock v c (hcells ▸ List.mem_cons_of_mem a hc)
        · rw [hother v hvu hv] at hc
          exact hpool.isBlock v c hc
    · rw [hfree]
      refine ⟨rfl, hblock.ne_zero, ?_⟩
      have hnext : ((db.setFreePtr a).put a { db.disk a with h := ⟨.free_BLOCK, db.h.freePtr⟩ }).next a = db.h.freePtr := by
        change (Function.update db.disk a _ a).h.next = _
        rw [Function.update_self]
      rw [hnext]
      refine hpool.free.congr fun c hc => ?_
      have hca : c ≠ a := fun heq => hnot (heq ▸ hc)
      rw [memoryDB.next, hsame c hca, memoryDB.next]
  · rw [hcells, hthis]
    rfl
  · intro c hc
    exact hsame c (by simpa using hc)

theorem Freed.trans {cells rest : List ℕ} {db' db'' : memoryDB} {blocks' blocks'' : Use → List ℕ}
    (h : Freed db blocks u cells db' blocks') (h' : Freed db' blocks' u rest db'' blocks'') :
    Freed db blocks u (cells ++ rest) db'' blocks'' where
  pool := h'.pool
  free := by rw [h'.free, h.free, List.reverse_append, List.append_assoc]
  left := by rw [h.left, h'.left, List.append_assoc]
  others v hvu hv := (h'.others v hvu hv).trans (h.others v hvu hv)
  disk a ha := by
    rw [List.mem_append, not_or] at ha
    exact (h'.disk a ha.2).trans (h.disk a ha.1)
  eofPtr := h'.eofPtr.trans h.eofPtr
  textLocks := h'.textLocks.trans h.textLocks
  textBlock := h'.textBlock.trans h.textBlock

theorem freeOldBlockChain_spec (hu : u ≠ .free) (fuel : ℕ) (hpool : Pool db blocks)
    (hchain : Chained db.next 0 a (blocks u)) (hfuel : (blocks u).length ≤ fuel) :
    ∃ db' blocks', memoryDB.freeOldBlockChain fuel db a = .ok db' ∧ Freed db blocks u (blocks u) db' blocks' := by
  induction fuel generalizing db blocks a with
  | zero =>
    have hcells : blocks u = [] := List.eq_nil_of_length_eq_zero (Nat.le_zero.mp hfuel)
    rw [hcells] at hchain ⊢
    exact ⟨db, blocks, if_pos hchain, hpool, rfl, rfl, fun _ _ _ => rfl, fun _ _ => rfl, rfl, rfl, rfl⟩
  | succ fuel ih =>
    cases hcells : blocks u with
    | nil =>
      rw [hcells] at hchain
      exact ⟨db, blocks, if_pos hchain, hpool, rfl, rfl, fun _ _ _ => rfl, fun _ _ => rfl, rfl, rfl, rfl⟩
    | cons b rest =>
      rw [hcells] at hchain hfuel
      obtain ⟨rfl, hne, hrest⟩ := hchain
      have hblock := hpool.isBlock u a (hcells ▸ List.mem_cons_self)
      obtain ⟨db₁, blocks₁, hfree, hfreed⟩ := FreeBlock_spec hpool hu hcells
      have hleft : blocks₁ u = rest := by
        have hsplit := hcells.symm.trans hfreed.left
        exact (List.cons_inj_right a).mp hsplit.symm
      have hnodup : a ∉ rest := by
        have hnodup := hpool.apart.nodup u
        rw [hcells] at hnodup
        exact (List.nodup_cons.mp hnodup).1
      have hchain₁ : Chained db₁.next 0 (db.next a) (blocks₁ u) := by
        rw [hleft]
        refine hrest.congr fun c hc => ?_
        have hca : c ∉ [a] := fun hmem => hnodup (List.mem_singleton.mp hmem ▸ hc)
        rw [memoryDB.next, hfreed.disk c hca, memoryDB.next]
      obtain ⟨db₂, blocks₂, hloop, hfreed₂⟩ := ih hfreed.pool hchain₁ (by rw [hleft]; simpa using hfuel)
      refine ⟨db₂, blocks₂, ?_, ?_⟩
      · rw [memoryDB.freeOldBlockChain, if_neg hne, memoryDB.dbread_ok hblock, Stop.ok_bind, hfree, Stop.ok_bind]
        exact hloop
      · have htrans := hfreed.trans hfreed₂
        rw [hleft] at htrans
        exact htrans

end dce.bak
