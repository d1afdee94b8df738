import Dce.Bak.SaveText

open lib

namespace dce.bak

variable {db : memoryDB} {blocks : Use → List ℕ} {textType : ℕ}

open memoryDB

theorem writeTextBlock_ok (hpool : Pool db blocks) (htype : textType < TB_NUM) : db.writeTextBlock textType = .ok db := by
  have hle := hpool.header_le
  unfold TB_NUM at htype
  unfold sizeof_dbHeader at hle
  refine dbwrite_ok (.inl rfl) ?_ ?_
  · unfold textBlock_pos sizeof_textBlock
    omega
  · unfold textBlock_pos sizeof_textBlock fileLimit
    omega

variable {blocks' : Use → List ℕ} {db' : memoryDB}

theorem Kept.freed (hpool : Pool db blocks)
    (h : Freed db blocks (.newText textType) (blocks (.newText textType)) db' blocks') : Kept textType db blocks db' blocks' := by
  refine ⟨fun u hu hut => h.others u hut hu, fun u _ hut a ha => h.disk a fun hmem => hut (hpool.apart.unique ha hmem),
    h.textLocks, fun n _ => by rw [h.textBlock], by rw [h.textBlock], by rw [h.textBlock], by rw [h.textBlock], ?_⟩
  have hleft : blocks' (.newText textType) = [] := List.self_eq_append_right.mp h.left
  rw [h.room, hleft, List.length_nil, Nat.add_zero]

theorem Laid.kept {written : List Byte} (h : Laid db blocks)
    (hkept : Kept textType db blocks db' blocks') (hwritten : Written textType db' blocks' written) : Laid db' blocks' := by
  refine ⟨hwritten.pool, fun n => ?_, fun n => ?_, fun n => ?_, fun n hn => ?_⟩
  · have hchain : Chained db'.next 0 (db.h.textBlock n).textAddr (blocks' (.text n)) := by
      rw [hkept.others (.text n) (by simp) (by simp)]
      refine (h.text n).congr fun a ha => ?_
      rw [memoryDB.next, hkept.disk (.text n) (by simp) (by simp) a ha, memoryDB.next]
    by_cases hn : n = textType
    · subst hn
      rwa [hkept.textAddr]
    · rwa [hkept.texts n hn]
  · by_cases hn : n = textType
    · subst hn
      exact hwritten.chain
    · have hu : Use.newText n ≠ .newText textType := by simpa using hn
      rw [hkept.texts n hn, hkept.others (.newText n) (by simp) hu]
      refine (h.newText n).congr fun a ha => ?_
      rw [memoryDB.next, hkept.disk (.newText n) (by simp) hu a ha, memoryDB.next]
  · rw [hkept.others (.text n) (by simp) (by simp)]
    by_cases hn : n = textType
    · subst hn
      rw [hkept.size]
      exact h.size n
    · rw [hkept.texts n hn]
      exact h.size n
  · by_cases hnt : n = textType
    · subst hnt
      rw [hwritten.newsize, hwritten.length]
    · have hu : Use.newText n ≠ .newText textType := by simpa using hnt
      rw [hkept.texts n hnt] at hn ⊢
      rw [hkept.others (.newText n) (by simp) hu]
      exact h.newsize n hn

theorem startText_spec (h : Laid db blocks) (htype : textType < TB_NUM) :
    (∃ db' blocks' diskBlock diskBlockAddr, startText db textType = .ok (db', diskBlock, diskBlockAddr) ∧
      Writing textType db' blocks' diskBlock diskBlockAddr [] ∧ Kept textType db blocks db' blocks') ∨
    (startText db textType = .error .ubik ∧ available textType db blocks = 0) := by
  obtain ⟨db₁, blocks₁, hfree, hfreed⟩ := freeOldBlockChain_spec (u := .newText textType) (by simp) db.turns h.pool
    (h.newText textType) (h.pool.length_le _)
  have hkept₁ := Kept.freed h.pool hfreed
  have hleft : blocks₁ (.newText textType) = [] := List.self_eq_append_right.mp hfreed.left
  have hroom₁ : room db₁ blocks₁ = available textType db blocks := by
    have := hkept₁.room
    rwa [hleft] at this
  rw [startText, hfree, Stop.ok_bind]
  by_cases hroom : room db₁ blocks₁ = 0
  · exact .inr ⟨by rw [AllocBlock_full hfreed.pool hroom, Stop.error_bind], hroom₁ ▸ hroom⟩
  · obtain ⟨db₂, a, free, halloc, htaken⟩ := AllocBlock_spec hfreed.pool (Nat.pos_of_ne_zero hroom)
      (u := .newText textType) (by simp)
    have hcells : takenBlocks blocks₁ (.newText textType) free a (.newText textType) = [a] := by
      rw [takenBlocks_self, hleft, List.nil_append]
    have hblock := htaken.pool.isBlock (.newText textType) a (by simp [hcells])
    have hheader := writeTextBlock_ok
      (htaken.pool.setTextBlock textType { db₂.h.textBlock textType with newsize := 0, newTextAddr := a }) htype
    have htb : (db₂.setTextBlock textType { db₂.h.textBlock textType with newsize := 0, newTextAddr := a }).h.textBlock textType =
        { db₂.h.textBlock textType with newsize := 0, newTextAddr := a } := Function.update_self ..
    have hnext : db₂.next a = 0 := by
      rw [memoryDB.next, htaken.disk, Function.update_self]
      rfl
    rw [halloc, Stop.ok_bind]
    dsimp only
    rw [hheader, Stop.ok_bind]
    refine .inl ⟨_, takenBlocks blocks₁ (.newText textType) free a, _, _, rfl, ⟨htaken.pool.setTextBlock _ _, ?_, rfl, ⟨[], ?_, ?_⟩,
      fun i hi => absurd hi (by simp), ?_⟩, ?_⟩
    · rw [htb, hcells]
      exact ⟨rfl, hblock.ne_zero, hnext⟩
    · rw [hcells, List.nil_append]
    · simp
    · rw [htb]
      rfl
    · exact (hkept₁.trans (Kept.taken htaken)).trans (Kept.setTextBlock _ rfl rfl rfl)

theorem skipBlocks_spec {cells : List ℕ} {a : ℕ} (hchain : Chained db.next 0 a cells)
    (hcells : ∀ c ∈ cells, IsBlock db.h.eofPtr c) (k : ℕ) (hk : k ≤ cells.length) :
    db.skipBlocks k a = .ok (cells.getD k 0) := by
  induction k generalizing a cells with
  | zero =>
    cases cells with
    | nil => exact congrArg Except.ok hchain
    | cons b cells => exact congrArg Except.ok hchain.1
  | succ k ih =>
    cases cells with
    | nil => simp at hk
    | cons b cells =>
      obtain ⟨rfl, -, hrest⟩ := hchain
      rw [skipBlocks, dbread_ok (hcells a List.mem_cons_self), Stop.ok_bind]
      exact ih hrest (fun c hc => hcells c (List.mem_cons_of_mem a hc)) (by simpa using hk)

theorem one_le_blocksFor (len : ℕ) : 1 ≤ blocksFor len := Nat.le_max_left ..

theorem blocksFor_mono {len len' : ℕ} (h : len ≤ len') : blocksFor len ≤ blocksFor len' := by
  unfold blocksFor BLOCK_DATA_SIZE BLOCKSIZE sizeof_blockHeader
  omega

theorem Written.cells_ne_nil {written : List Byte} (h : Written textType db blocks written) : blocks (.newText textType) ≠ [] := by
  have hle := one_le_blocksFor written.length
  rw [← h.length] at hle
  exact List.ne_nil_of_length_pos hle

theorem Written.newTextAddr_ne_zero {written : List Byte} (h : Written textType db blocks written) :
    (db.h.textBlock textType).newTextAddr ≠ 0 := by
  have hchain := h.chain
  obtain ⟨a, cells, hcells⟩ := List.exists_cons_of_ne_nil h.cells_ne_nil
  rw [hcells] at hchain
  exact hchain.2.1

theorem continueText_spec {written : List Byte} (h : Written textType db blocks written) (hne : written ≠ []) :
    (¬ BLOCK_DATA_SIZE ∣ written.length ∧ ∃ diskBlock diskBlockAddr,
      continueText db textType written.length = .ok (db, diskBlock, diskBlockAddr) ∧
      Writing textType db blocks diskBlock diskBlockAddr written) ∨
    (BLOCK_DATA_SIZE ∣ written.length ∧ continueText db textType written.length = .ok (db, db.disk 0, 0)) := by
  have hcells := h.pool.isBlock (.newText textType)
  have hpositive := List.length_pos_iff.mpr hne
  have heof : ¬ db.h.eofPtr ≤ 0 := by
    have hle := h.pool.header_le
    unfold sizeof_dbHeader at hle
    omega
  rw [continueText]
  rw [if_neg (not_not_intro h.newsize.symm), if_neg h.newTextAddr_ne_zero]
  by_cases hdvd : BLOCK_DATA_SIZE ∣ written.length
  · obtain ⟨q, hq⟩ := hdvd
    have hlength : (blocks (.newText textType)).length = written.length / BLOCK_DATA_SIZE := by
      rw [h.length, blocksFor]
      unfold BLOCK_DATA_SIZE BLOCKSIZE sizeof_blockHeader at *
      omega
    rw [skipBlocks_spec h.chain hcells _ (Nat.le_of_eq hlength.symm), Stop.ok_bind, ← hlength,
      List.getD_eq_default _ _ (Nat.le_refl _), dbread, if_neg heof, Stop.ok_bind]
    exact .inr ⟨⟨q, hq⟩, rfl⟩
  · have hmod : written.length % BLOCK_DATA_SIZE ≠ 0 := fun hzero => hdvd (Nat.dvd_of_mod_eq_zero hzero)
    have hlength : (blocks (.newText textType)).length = written.length / BLOCK_DATA_SIZE + 1 := by
      rw [h.length, blocksFor]
      unfold BLOCK_DATA_SIZE BLOCKSIZE sizeof_blockHeader at *
      omega
    obtain ⟨before, a, hsplit⟩ := List.eq_nil_or_concat (blocks (.newText textType)) |>.resolve_left h.cells_ne_nil
    rw [List.concat_eq_append] at hsplit
    have hbefore : before.length = written.length / BLOCK_DATA_SIZE := by
      rw [hsplit, List.length_append, List.length_singleton] at hlength
      omega
    have hlast : (blocks (.newText textType)).getD (written.length / BLOCK_DATA_SIZE) 0 = a := by
      rw [hsplit, ← hbefore]
      simp
    have hmem : a ∈ blocks (.newText textType) := by simp [hsplit]
    rw [skipBlocks_spec h.chain hcells _ (by omega), Stop.ok_bind, hlast, dbread_ok (hcells a hmem), Stop.ok_bind]
    refine .inl ⟨hdvd, _, _, rfl, h.pool, h.chain, ?_, ⟨before, hsplit, hbefore⟩, ?_, h.newsize⟩
    · have hchain := h.chain
      rw [hsplit] at hchain
      exact hchain.last
    · refine h.stores.congr fun k _ => ?_
      by_cases hk : (blocks (.newText textType)).getD k 0 = a
      · rw [hk]
        exact congrArg block.a (Function.update_self ..)
      · exact congrArg block.a (Function.update_of_ne hk ..)

/-- Nothing is changed but the unused blocks and those of a text. -/
structure Elsewhere (textType : ℕ) (db : memoryDB) (blocks : Use → List ℕ) (db' : memoryDB) (blocks' : Use → List ℕ) : Prop where
  others : ∀ u, u ≠ .free → u ≠ .newText textType → u ≠ .text textType → blocks' u = blocks u
  disk : ∀ u, u ≠ .free → u ≠ .newText textType → u ≠ .text textType → ∀ a ∈ blocks u, db'.disk a = db.disk a
  textLocks : db'.h.textLocks = db.h.textLocks
  texts : ∀ n, n ≠ textType → db'.h.textBlock n = db.h.textBlock n

theorem Kept.elsewhere (h : Kept textType db blocks db' blocks') :
    Elsewhere textType db blocks db' blocks' :=
  ⟨fun u hu hnew _ => h.others u hu hnew, fun u hu hnew _ => h.disk u hu hnew, h.textLocks, h.texts⟩

theorem Elsewhere.trans {db' db'' : memoryDB} {blocks' blocks'' : Use → List ℕ} (h : Elsewhere textType db blocks db' blocks')
    (h' : Elsewhere textType db' blocks' db'' blocks'') : Elsewhere textType db blocks db'' blocks'' where
  others u hu hnew ht := (h'.others u hu hnew ht).trans (h.others u hu hnew ht)
  disk u hu hnew ht a ha := (h'.disk u hu hnew ht a (h.others u hu hnew ht ▸ ha)).trans (h.disk u hu hnew ht a ha)
  textLocks := h'.textLocks.trans h.textLocks
  texts n hn := (h'.texts n hn).trans (h.texts n hn)

/-- A text has been replaced by a new one, and its blocks are unused. -/
structure Completed (textType : ℕ) (db : memoryDB) (blocks : Use → List ℕ) (db' : memoryDB) (blocks' : Use → List ℕ)
    (text : List Byte) : Prop where
  laid : Laid db' blocks'
  size : (db'.h.textBlock textType).size = text.length
  stores : Stores db' (blocks' (.text textType)) text
  version : (db'.h.textBlock textType).version = (db.h.textBlock textType).version + 1
  freed : ∀ a ∈ blocks (.text textType), a ∈ blocks' .free
  elsewhere : Elsewhere textType db blocks db' blocks'

/-- The uses of the blocks when a new text replaces one whose blocks are free. -/
def completedBlocks (blocks : Use → List ℕ) (textType : ℕ) : Use → List ℕ :=
  fun u => blocks (Equiv.swap (.text textType) (.newText textType) u)

theorem completeText_spec {written : List Byte} (h : Laid db blocks) (hwritten : Written textType db blocks written) :
    ∃ db' blocks', completeText db textType = .ok db' ∧ Completed textType db blocks db' blocks' written := by
  obtain ⟨db₁, blocks₁, hfree, hfreed⟩ := freeOldBlockChain_spec (u := .text textType) (by simp) db.turns h.pool
    (h.text textType) (h.pool.length_le _)
  have hleft : blocks₁ (.text textType) = [] := List.self_eq_append_right.mp hfreed.left
  have hnew : blocks₁ (.newText textType) = blocks (.newText textType) := hfreed.others _ (by simp) (by simp)
  let tb : textBlock := ⟨(db₁.h.textBlock textType).version + 1, (db₁.h.textBlock textType).newsize,
    (db₁.h.textBlock textType).newTextAddr, 0, 0⟩
  have htb : (db₁.setTextBlock textType tb).h.textBlock textType = tb := Function.update_self ..
  have hother : ∀ n, n ≠ textType → (db₁.setTextBlock textType tb).h.textBlock n = db.h.textBlock n := fun n hn => by
    rw [← hfreed.textBlock]
    exact Function.update_of_ne hn ..
  have hdisk : ∀ u, u ≠ .text textType → ∀ a ∈ blocks u, db₁.disk a = db.disk a := fun u hu a ha =>
    hfreed.disk a fun hmem => hu (h.pool.apart.unique ha hmem)
  have htextBlocks : completedBlocks blocks₁ textType (.text textType) = blocks (.newText textType) := by
    rw [completedBlocks, Equiv.swap_apply_left, hnew]
  have hnewBlocks : completedBlocks blocks₁ textType (.newText textType) = [] := by
    rw [completedBlocks, Equiv.swap_apply_right, hleft]
  have hotherBlocks : ∀ u, u ≠ .text textType → u ≠ .newText textType → completedBlocks blocks₁ textType u = blocks₁ u :=
    fun u hu hu' => by rw [completedBlocks, Equiv.swap_apply_of_ne_of_ne hu hu']
  have hfreeBlocks : completedBlocks blocks₁ textType .free = blocks₁ .free := hotherBlocks _ (by simp) (by simp)
  have hkept : ∀ u, u ≠ .free → u ≠ .newText textType → u ≠ .text textType →
      completedBlocks blocks₁ textType u = blocks u := fun u hu hnew htext => by
    rw [hotherBlocks u htext hnew, hfreed.others u htext hu]
  have hnext : ∀ u, u ≠ .text textType → ∀ a ∈ blocks u, (db₁.setTextBlock textType tb).next a = db.next a :=
    fun u hu a ha => congrArg (·.h.next) (hdisk u hu a ha)
  refine ⟨db₁.setTextBlock textType tb, completedBlocks blocks₁ textType, ?_, ⟨⟨?_, fun n => ?_, fun n => ?_, fun n => ?_,
    fun n hn => ?_⟩, ?_, ?_, ?_, ?_, ⟨hkept, fun u _ _ htext a ha => hdisk u htext a ha, hfreed.textLocks, hother⟩⟩⟩
  · rw [completeText, hfree, Stop.ok_bind]
  · have hpool := hfreed.pool.setTextBlock textType tb
    refine ⟨hpool.apart.rename (Equiv.injective _), fun u => hpool.isBlock _, hpool.aligned, hpool.limit, ?_⟩
    rw [hfreeBlocks]
    exact hpool.free
  · by_cases hn : n = textType
    · subst hn
      rw [htb, htextBlocks]
      change Chained _ 0 (db₁.h.textBlock n).newTextAddr _
      rw [hfreed.textBlock]
      exact hwritten.chain.congr (hnext _ (by simp))
    · have hu : Use.text n ≠ .text textType := by simpa using hn
      rw [hother n hn, hkept _ (by simp) (by simp) hu]
      exact (h.text n).congr (hnext _ hu)
  · by_cases hn : n = textType
    · subst hn
      rw [htb, hnewBlocks]
      rfl
    · have hu : Use.newText n ≠ .newText textType := by simpa using hn
      rw [hother n hn, hkept _ (by simp) hu (by simp)]
      exact (h.newText n).congr (hnext _ (by simp))
  · by_cases hn : n = textType
    · subst hn
      rw [htb, htextBlocks, hwritten.length]
      change (db₁.h.textBlock n).newsize ≤ _
      rw [hfreed.textBlock, hwritten.newsize]
      unfold blocksFor BLOCK_DATA_SIZE BLOCKSIZE sizeof_blockHeader
      omega
    · have hu : Use.text n ≠ .text textType := by simpa using hn
      rw [hother n hn, hkept _ (by simp) (by simp) hu]
      exact h.size n
  · by_cases hnt : n = textType
    · subst hnt
      rw [htb] at hn
      exact absurd rfl hn
    · have hu : Use.newText n ≠ .newText textType := by simpa using hnt
      rw [hother n hnt] at hn ⊢
      rw [hkept _ (by simp) hu (by simp)]
      exact h.newsize n hn
  · rw [htb]
    change (db₁.h.textBlock textType).newsize = _
    rw [hfreed.textBlock, hwritten.newsize]
  · rw [htextBlocks]
    refine hwritten.stores.congr fun k hk => ?_
    have hk' : k < (blocks (.newText textType)).length := by
      rw [hwritten.length, blocksFor]
      unfold BLOCK_DATA_SIZE BLOCKSIZE sizeof_blockHeader at *
      omega
    rw [List.getD_eq_getElem _ _ hk']
    exact congrArg block.a (hdisk _ (by simp) _ (List.getElem_mem hk'))
  · rw [htb, ← hfreed.textBlock]
  · intro a ha
    rw [hfreeBlocks, hfreed.free]
    exact List.mem_append_left _ (List.mem_reverse.mpr ha)

section Call

variable {textLocks handle lockName : ℕ} {written piece : List Byte} (flags : u_long)
  (hhandle : checkLockHandle textLocks handle = some lockName) (htype : textType < TB_NUM)
  (hpiece : piece.length ≤ BLOCK_DATA_SIZE)
include hhandle htype hpiece

theorem BUDB_SaveText_eq (offset : ℕ) : BUDB_SaveText textLocks db true handle textType offset flags piece =
    (if offset = 0 then startText db textType else continueText db textType offset) >>= fun found =>
    saveLoop textType (piece.length + 1) found.1 found.2.1 found.2.2 offset piece >>= fun db' =>
    (if flags &&& BUDB_TEXT_COMPLETE ≠ 0 then completeText db' textType else .ok db') >>= fun db' =>
    db'.writeTextBlock textType := by
  have hsize : ¬(BLOCK_DATA_SIZE < piece.length ∨ (offset : ℤ) < 0) := by omega
  have htexts : ¬((textType : ℤ) < 0 ∨ (TB_NUM : ℤ) ≤ textType) := by omega
  have hlocked : checkLockHandle textLocks handle ≠ none := by simp [hhandle]
  rw [BUDB_SaveText, if_neg (by simp), if_neg hsize, if_neg hlocked, if_neg htexts]
  simp only [Int.natCast_eq_zero, Int.toNat_natCast]
  by_cases hstart : offset = 0
  · by_cases hflag : flags &&& BUDB_TEXT_COMPLETE ≠ 0
    · simp only [if_pos hstart, if_pos hflag]
    · simp only [if_pos hstart, if_neg hflag, Stop.ok_bind]
  · by_cases hflag : flags &&& BUDB_TEXT_COMPLETE ≠ 0
    · simp only [if_neg hstart, if_pos hflag]
    · simp only [if_neg hstart, if_neg hflag, Stop.ok_bind]

theorem BUDB_SaveText_boundary (h : Written textType db blocks written) (hne : written ≠ [])
    (hdvd : BLOCK_DATA_SIZE ∣ written.length) :
    BUDB_SaveText textLocks db true handle textType written.length flags piece = .error Stop.BUDB_IO := by
  have hpositive := List.length_pos_iff.mpr hne
  have hcontinue : continueText db textType written.length = .ok (db, db.disk 0, 0) := by
    rcases continueText_spec h hne with ⟨hnot, -⟩ | ⟨-, hcontinue⟩
    · exact absurd hdvd hnot
    · exact hcontinue
  have hmod : written.length % BLOCK_DATA_SIZE = 0 := Nat.mod_eq_zero_of_dvd hdvd
  have hrefused : ∀ db' b, memoryDB.dbwrite_block db' 0 b = .error Stop.BUDB_IO := fun db' b => by
    rw [memoryDB.dbwrite_block, memoryDB.dbwrite]
    exact if_pos (.inl ⟨by decide, rfl⟩)
  rw [BUDB_SaveText_eq flags hhandle htype hpiece, if_neg (by omega), hcontinue, Stop.ok_bind]
  dsimp only
  rw [saveLoop]
  dsimp only
  rw [if_neg (by omega), hrefused, Stop.error_bind]

theorem BUDB_SaveText_spec (h : Laid db blocks)
    (hwritten : written = [] ∨ (Written textType db blocks written ∧ ¬ BLOCK_DATA_SIZE ∣ written.length)) :
    (∃ db' blocks', Written textType db' blocks' (written ++ piece) ∧ Kept textType db blocks db' blocks' ∧
      BUDB_SaveText textLocks db true handle textType written.length flags piece =
        (if flags &&& BUDB_TEXT_COMPLETE ≠ 0 then completeText db' textType else .ok db') >>= fun db' =>
        db'.writeTextBlock textType) ∨
    (BUDB_SaveText textLocks db true handle textType written.length flags piece = .error .ubik ∧
      available textType db blocks < blocksFor (written ++ piece).length) := by
  rw [BUDB_SaveText_eq flags hhandle htype hpiece]
  have hfind : (∃ db₁ blocks₁ diskBlock diskBlockAddr,
      (if written.length = 0 then startText db textType else continueText db textType written.length) =
        .ok (db₁, diskBlock, diskBlockAddr) ∧
      Writing textType db₁ blocks₁ diskBlock diskBlockAddr written ∧ Kept textType db blocks db₁ blocks₁) ∨
      ((if written.length = 0 then startText db textType else continueText db textType written.length) = .error .ubik ∧
        available textType db blocks = 0) := by
    rcases hwritten with rfl | ⟨hwritten, hnot⟩
    · exact startText_spec h htype
    · have hne : written ≠ [] := by
        rintro rfl
        exact hnot (Nat.dvd_zero _)
      have hpositive := List.length_pos_iff.mpr hne
      rcases continueText_spec hwritten hne with ⟨-, diskBlock, diskBlockAddr, hcontinue, hwriting⟩ | ⟨hdvd, -⟩
      · rw [if_neg (by omega)]
        exact .inl ⟨db, blocks, diskBlock, diskBlockAddr, hcontinue, hwriting, Kept.refl ..⟩
      · exact absurd hdvd hnot
  have hgrows : piece ≠ [] ∨ written.length % BLOCK_DATA_SIZE ≠ 0 ∨ written = [] := by
    rcases hwritten with hnil | ⟨-, hnot⟩
    · exact .inr (.inr hnil)
    · exact .inr (.inl fun hmod => hnot (Nat.dvd_of_mod_eq_zero hmod))
  rcases hfind with ⟨db₁, blocks₁, diskBlock, diskBlockAddr, hok, hwriting, hkept⟩ | ⟨herror, hfew⟩
  · rw [hok, Stop.ok_bind]
    dsimp only
    have hsame : available textType db₁ blocks₁ = available textType db blocks := hkept.room
    have hloop := saveLoop_spec (piece.length + 1) hwriting (Nat.lt_succ_self _) hgrows
    rw [hsame] at hloop
    rcases hloop with ⟨db', blocks', hloop, hdone, hkept'⟩ | ⟨herror, hfew⟩
    · rw [hloop, Stop.ok_bind]
      exact .inl ⟨db', blocks', hdone, hkept.trans hkept', rfl⟩
    · rw [herror, Stop.error_bind, List.length_append]
      exact .inr ⟨rfl, hfew⟩
  · rw [herror, Stop.error_bind, hfew]
    exact .inr ⟨rfl, one_le_blocksFor _⟩

theorem BUDB_SaveText_partial (h : Laid db blocks) (hflags : flags &&& BUDB_TEXT_COMPLETE = 0)
    (hwritten : written = [] ∨ (Written textType db blocks written ∧ ¬ BLOCK_DATA_SIZE ∣ written.length)) :
    (∃ db' blocks', BUDB_SaveText textLocks db true handle textType written.length flags piece = .ok db' ∧
      Laid db' blocks' ∧ Written textType db' blocks' (written ++ piece) ∧ Kept textType db blocks db' blocks') ∨
    (BUDB_SaveText textLocks db true handle textType written.length flags piece = .error .ubik ∧
      available textType db blocks < blocksFor (written ++ piece).length) := by
  rcases BUDB_SaveText_spec flags hhandle htype hpiece h hwritten with
    ⟨db', blocks', hdone, hkept, hcall⟩ | hfew
  · rw [if_neg (not_not_intro hflags), Stop.ok_bind, writeTextBlock_ok hdone.pool htype] at hcall
    exact .inl ⟨db', blocks', hcall, h.kept hkept hdone, hdone, hkept⟩
  · exact .inr hfew

theorem BUDB_SaveText_complete (h : Laid db blocks) (hflags : flags &&& BUDB_TEXT_COMPLETE ≠ 0)
    (hwritten : written = [] ∨ (Written textType db blocks written ∧ ¬ BLOCK_DATA_SIZE ∣ written.length)) :
    (∃ db' blocks', BUDB_SaveText textLocks db true handle textType written.length flags piece = .ok db' ∧
      Completed textType db blocks db' blocks' (written ++ piece) ∧
      blocksFor (written ++ piece).length ≤ available textType db blocks) ∨
    (BUDB_SaveText textLocks db true handle textType written.length flags piece = .error .ubik ∧
      available textType db blocks < blocksFor (written ++ piece).length) := by
  rcases BUDB_SaveText_spec flags hhandle htype hpiece h hwritten with
    ⟨db₁, blocks₁, hdone, hkept, hcall⟩ | hfew
  · obtain ⟨db', blocks', hcomplete, hcompleted⟩ := completeText_spec (h.kept hkept hdone) hdone
    rw [if_pos hflags, hcomplete, Stop.ok_bind, writeTextBlock_ok hcompleted.laid.pool htype] at hcall
    refine .inl ⟨db', blocks', hcall, ⟨hcompleted.laid, hcompleted.size, hcompleted.stores, ?_, ?_,
      hkept.elsewhere.trans hcompleted.elsewhere⟩, ?_⟩
    · rw [hcompleted.version, hkept.version]
    · intro a ha
      refine hcompleted.freed a ?_
      rwa [hkept.others (.text textType) (by simp) (by simp)]
    · have hroom := hkept.room
      rw [hdone.length] at hroom
      rw [available, ← hroom]
      exact Nat.le_add_left ..
  · exact .inr hfew

end Call

theorem Laid.exists_written (h : Laid db blocks) (haddr : (db.h.textBlock textType).newTextAddr ≠ 0) :
    ∃ written, Written textType db blocks written := by
  refine ⟨(List.range (db.h.textBlock textType).newsize).map (dataAt db (blocks (.newText textType))), h.pool,
    h.newText textType, ?_, fun i hi => ?_, ?_⟩
  · rw [List.length_map, List.length_range]
    exact h.newsize textType haddr
  · rw [List.getElem_map, List.getElem_range]
  · rw [List.length_map, List.length_range]

theorem BUDB_SaveText_ok {textLocks handle : ℕ} {callPermitted : Bool} {ty offset : ℤ} {flags : u_long} {piece : List Byte}
    (h : Laid db blocks)
    (hok : BUDB_SaveText textLocks db callPermitted handle ty offset flags piece = .ok db') :
    ∃ (n lockName : ℕ) (blocks' : Use → List ℕ), ty = (n : ℤ) ∧ checkLockHandle textLocks handle = some lockName ∧ Laid db' blocks' ∧
      Elsewhere n db blocks db' blocks' := by
  have hcall := hok
  have hcall' := hok
  rw [BUDB_SaveText] at hcall
  obtain ⟨hpermitted, hcall⟩ := Stop.ite_error_eq_ok.mp hcall
  obtain ⟨hsize, hcall⟩ := Stop.ite_error_eq_ok.mp hcall
  obtain ⟨hlocked, hcall⟩ := Stop.ite_error_eq_ok.mp hcall
  obtain ⟨htexts, hcall⟩ := Stop.ite_error_eq_ok.mp hcall
  obtain ⟨lockName, hhandle⟩ := Option.ne_none_iff_exists'.mp hlocked
  obtain ⟨n, rfl⟩ := Int.eq_ofNat_of_zero_le (show 0 ≤ ty by omega)
  obtain ⟨o, rfl⟩ := Int.eq_ofNat_of_zero_le (show 0 ≤ offset by omega)
  have htype : n < TB_NUM := by omega
  have hpiece : piece.length ≤ BLOCK_DATA_SIZE := by omega
  obtain rfl : callPermitted = true := by simpa using hpermitted
  clear hcall
  obtain ⟨written, rfl, hwritten⟩ : ∃ written : List Byte, written.length = o ∧
      (written = [] ∨ (Written n db blocks written ∧ ¬ BLOCK_DATA_SIZE ∣ written.length)) := by
    by_cases hstart : o = 0
    · exact ⟨[], hstart.symm, .inl rfl⟩
    · rw [BUDB_SaveText_eq flags hhandle htype hpiece, if_neg hstart, continueText] at hok
      by_cases hoffset : o ≠ (db.h.textBlock n).newsize
      · rw [if_pos hoffset] at hok
        exact absurd hok (by simp)
      rw [if_neg hoffset] at hok
      by_cases haddr : (db.h.textBlock n).newTextAddr = 0
      · rw [if_pos haddr] at hok
        exact absurd hok (by simp)
      obtain ⟨written, hwritten⟩ := h.exists_written haddr
      have hlength : written.length = o := hwritten.newsize.symm.trans (not_not.mp hoffset).symm
      refine ⟨written, hlength, .inr ⟨hwritten, fun hdvd => ?_⟩⟩
      have hne : written ≠ [] := by
        rintro rfl
        exact hstart hlength.symm
      have herror := BUDB_SaveText_boundary flags hhandle htype hpiece hwritten hne hdvd
      rw [hlength] at herror
      exact absurd (hcall'.symm.trans herror) (by simp)
  by_cases hflags : flags &&& BUDB_TEXT_COMPLETE = 0
  · rcases BUDB_SaveText_partial flags hhandle htype hpiece h hflags hwritten with ⟨db₁, blocks', hthis, hlaid, -, hkept⟩ | ⟨herror, -⟩
    · obtain rfl : db₁ = db' := Except.ok.inj (hthis.symm.trans hok)
      exact ⟨n, lockName, blocks', rfl, hhandle, hlaid, hkept.elsewhere⟩
    · exact absurd (hok.symm.trans herror) (by simp)
  · rcases BUDB_SaveText_complete flags hhandle htype hpiece h hflags hwritten with ⟨db₁, blocks', hthis, hcompleted, -⟩ | ⟨herror, -⟩
    · obtain rfl : db₁ = db' := Except.ok.inj (hthis.symm.trans hok)
      exact ⟨n, lockName, blocks', rfl, hhandle, hcompleted.laid, hcompleted.elsewhere⟩
    · exact absurd (hok.symm.trans herror) (by simp)

end dce.bak

open lib

namespace dce.bak

variable {db : memoryDB} {blocks : Use → List ℕ} {textType : ℕ} {text : List Byte}

/-- What `BUDB_GetText` makes of a text. -/
def answer (text : List Byte) (maxLength offset : ℤ) : Except Stop Reply :=
  if 0 < text.length ∧ (text.length : ℤ) ≤ offset then .error .BUDB_BADARGUMENT
  else
    let transferSize := min (text.length - offset) maxLength
    if transferSize < 0 ∨ (BUDB_MAX_CHAR_LIST : ℤ) < transferSize then .error .overrun
    else .ok ⟨(text.drop offset.toNat).take transferSize.toNat,
      if offset + transferSize = text.length then -1 else offset + transferSize⟩

theorem Stores.read {cells : List ℕ} (h : Stores db cells text) (offset chunkSize : ℕ)
    (hblock : offset % BLOCK_DATA_SIZE + chunkSize ≤ BLOCK_DATA_SIZE) (hinside : offset + chunkSize ≤ text.length) :
    (db.disk (cells.getD (offset / BLOCK_DATA_SIZE) 0)).a.read (offset % BLOCK_DATA_SIZE) chunkSize =
      (text.drop offset).take chunkSize := by
  have hpos := BLOCK_DATA_SIZE_pos
  have hsplit := Nat.div_add_mod offset BLOCK_DATA_SIZE
  refine List.ext_getElem ?_ fun k hk hk' => ?_
  · rw [Memory.length_read, List.length_take, List.length_drop]
    omega
  rw [Memory.length_read] at hk
  have hdiv : (offset + k) / BLOCK_DATA_SIZE = offset / BLOCK_DATA_SIZE := by
    have hsum : offset + k = BLOCK_DATA_SIZE * (offset / BLOCK_DATA_SIZE) + (offset % BLOCK_DATA_SIZE + k) := by omega
    have hzero : (offset % BLOCK_DATA_SIZE + k) / BLOCK_DATA_SIZE = 0 := Nat.div_eq_of_lt (by omega)
    rw [hsum, Nat.mul_add_div hpos, hzero, Nat.add_zero]
  have hmod : (offset + k) % BLOCK_DATA_SIZE = offset % BLOCK_DATA_SIZE + k := by
    have hsum := Nat.div_add_mod (offset + k) BLOCK_DATA_SIZE
    rw [hdiv] at hsum
    omega
  have hoctet := h (offset + k) (by omega)
  rw [dataAt, hdiv, hmod] at hoctet
  simp only [Memory.read, List.getElem_map, List.getElem_range, List.getElem_take, List.getElem_drop]
  exact hoctet

theorem collect_spec {cells : List ℕ} {a : ℕ} (hchain : Chained db.next 0 a cells)
    (hcells : ∀ c ∈ cells, IsBlock db.h.eofPtr c) (hstores : Stores db cells text)
    (hlength : text.length ≤ BLOCK_DATA_SIZE * cells.length) (fuel addr offset transferSize : ℕ)
    (hfuel : transferSize < fuel) (hinside : offset + transferSize ≤ text.length)
    (haddr : 0 < transferSize → addr = cells.getD (offset / BLOCK_DATA_SIZE) 0) :
    collect db fuel addr offset transferSize = .ok ((text.drop offset).take transferSize) := by
  induction fuel generalizing addr offset transferSize with
  | zero => omega
  | succ fuel ih =>
    have hpos := BLOCK_DATA_SIZE_pos
    have hmod := Nat.mod_lt offset hpos
    rw [collect]
    by_cases hnone : transferSize = 0
    · rw [if_pos hnone, hnone, List.take_zero]
    · have hlt : offset / BLOCK_DATA_SIZE < cells.length := Nat.div_lt_of_lt_mul (by omega)
      have hmem : addr ∈ cells := by
        rw [haddr (Nat.pos_of_ne_zero hnone), List.getD_eq_getElem _ _ hlt]
        exact List.getElem_mem hlt
      obtain ⟨chunkSize, hchunkSize⟩ : ∃ n, n = min (BLOCK_DATA_SIZE - offset % BLOCK_DATA_SIZE) transferSize := ⟨_, rfl⟩
      have hnext : 0 < transferSize - chunkSize →
          (db.disk addr).h.next = cells.getD ((offset + chunkSize) / BLOCK_DATA_SIZE) 0 := by
        intro hrest
        have hsplit := Nat.div_add_mod offset BLOCK_DATA_SIZE
        have hsum : offset + chunkSize = BLOCK_DATA_SIZE * (offset / BLOCK_DATA_SIZE + 1) := by
          rw [Nat.mul_add, Nat.mul_one]
          omega
        rw [hsum, Nat.mul_div_cancel_left _ hpos, haddr (Nat.pos_of_ne_zero hnone)]
        exact hchain.next_getD _ hlt
      have hrest := ih (db.disk addr).h.next (offset + chunkSize) (transferSize - chunkSize) (by omega) (by omega) hnext
      have hread := hstores.read offset chunkSize (by omega) (by omega)
      rw [← haddr (Nat.pos_of_ne_zero hnone)] at hread
      rw [if_neg hnone, memoryDB.dbread_ok (hcells addr hmem), Stop.ok_bind]
      dsimp only
      have htake := List.take_add (l := text.drop offset) (i := chunkSize) (j := transferSize - chunkSize)
      rw [Nat.add_sub_cancel' (by omega), List.drop_drop] at htake
      rw [← hchunkSize, hrest, Stop.ok_bind, hread, htake]

theorem BUDB_GetText_spec {textLocks handle lockName : ℕ} (h : Laid db blocks)
    (hsize : (db.h.textBlock textType).size = text.length) (hstores : Stores db (blocks (.text textType)) text)
    (hhandle : checkLockHandle textLocks handle = some lockName) (htype : textType < TB_NUM) (maxLength : ℤ) {offset : ℤ}
    (hoffset : 0 ≤ offset) : BUDB_GetText textLocks db true handle textType maxLength offset = answer text maxLength offset := by
  have hcells := h.pool.isBlock (.text textType)
  have hlength := h.size textType
  rw [hsize] at hlength
  have hparameters : ¬(offset < 0 ∨ (textType : ℤ) < 0 ∨ (TB_NUM : ℤ) ≤ textType) := by omega
  rw [BUDB_GetText, if_neg (by simp), if_neg hparameters, if_neg (by simp [hhandle]), answer]
  simp only [Int.toNat_natCast, hsize]
  by_cases hbehind : 0 < text.length ∧ (text.length : ℤ) ≤ offset
  · rw [if_pos hbehind, if_pos hbehind]
  · rw [if_neg hbehind, if_neg hbehind]
    by_cases hoverrun : min ((text.length : ℤ) - offset) maxLength < 0 ∨
        (BUDB_MAX_CHAR_LIST : ℤ) < min ((text.length : ℤ) - offset) maxLength
    · rw [if_pos hoverrun, if_pos hoverrun]
    · rw [if_neg hoverrun, if_neg hoverrun]
      obtain ⟨o, rfl⟩ := Int.eq_ofNat_of_zero_le hoffset
      rw [Int.toNat_natCast]
      have hblock : o / BLOCK_DATA_SIZE ≤ (blocks (.text textType)).length :=
        Nat.div_le_of_le_mul (by omega)
      have hcollect := collect_spec (h.text textType) hcells hstores hlength
        ((min ((text.length : ℤ) - o) maxLength).toNat + 1) ((blocks (.text textType)).getD (o / BLOCK_DATA_SIZE) 0) o
        (min ((text.length : ℤ) - o) maxLength).toNat (Nat.lt_succ_self _) (by omega) (fun _ => rfl)
      rw [skipBlocks_spec (h.text textType) hcells _ hblock, Stop.ok_bind, hcollect, Stop.ok_bind]

end dce.bak
