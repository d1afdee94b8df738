import Dce.Bak.StructureLists

open lib

namespace dce.bak.alloc

variable {db db' : Database} {uses uses' : Use → List ℕ} {a i sa : ℕ} {type : StructType} {order : ByteOrder}

section Zeros

variable {b : Block}

theorem zeros_eq (b : Block) (hi : i < nEntries type) : b.zeros type =
    ((List.range (nEntries type)).erase i).countP (fun j => b.word j = zeroWord) + if b.word i = zeroWord then 1 else 0 := by
  have hperm := List.perm_cons_erase (List.mem_range.mpr hi)
  rw [Block.zeros, hperm.countP_eq, List.countP_cons]
  simp

theorem zeros_update (h : BlockHeader) (word : Octets) (hi : i < nEntries type) :
    (⟨h, Function.update b.word i word⟩ : Block).zeros type + (if b.word i = zeroWord then 1 else 0) =
      b.zeros type + if word = zeroWord then 1 else 0 := by
  have helse : ((List.range (nEntries type)).erase i).countP (fun j => Function.update b.word i word j = zeroWord) =
      ((List.range (nEntries type)).erase i).countP (fun j => b.word j = zeroWord) := by
    refine List.countP_congr fun j hj => ?_
    have hne : j ≠ i := by
      rintro rfl
      exact List.nodup_range.not_mem_erase hj
    rw [Function.update_of_ne hne]
  rw [zeros_eq ⟨h, Function.update b.word i word⟩ hi, zeros_eq b hi]
  dsimp only
  rw [helse]
  simp only [Function.update_self]
  omega

theorem zeros_le (b : Block) (type : StructType) : b.zeros type ≤ nEntries type := by
  have hle := List.countP_le_length (p := fun i => decide (b.word i = zeroWord)) (l := List.range (nEntries type))
  rwa [List.length_range] at hle

theorem word_of_zeros (hall : b.zeros type = nEntries type) (hi : i < nEntries type) : b.word i = zeroWord := by
  have hlength : (List.range (nEntries type)).countP (fun i => decide (b.word i = zeroWord)) =
      (List.range (nEntries type)).length := by
    rw [List.length_range]
    exact hall
  exact of_decide_eq_true (List.countP_eq_length.mp hlength i (List.mem_range.mpr hi))

theorem firstFree_spec (b : Block) (type : StructType) (hsome : 1 ≤ b.zeros type) : ∃ i, firstFree type b = some i ∧ i < nEntries type ∧ b.word i = zeroWord := by
  obtain ⟨j, hj, hfree⟩ := List.countP_pos_iff.mp hsome
  have hfound : (firstFree type b).isSome := List.find?_isSome.mpr ⟨j, hj, hfree⟩
  obtain ⟨i, hi⟩ := Option.isSome_iff_exists.mp hfound
  have hword := List.find?_some hi
  exact ⟨i, hi, List.mem_range.mp (List.mem_of_find?_eq_some hi), of_decide_eq_true hword⟩

end Zeros

section Addresses

theorem slot_inside (hi : i < nEntries type) : sizeof_blockHeader + (i + 1) * sizeEntries type ≤ BLOCKSIZE := by
  cases type <;> simp only [nEntries, sizeEntries, sizeof_blockHeader, BLOCKSIZE] at hi ⊢ <;> omega

theorem sizeEntries_pos (type : StructType) : 0 < sizeEntries type := by cases type <;> decide

theorem slotAddr_blockBase {eofPtr : ℕ} (ha : IsBlock eofPtr a) (hi : i < nEntries type) :
    memoryDB.BlockBase (slotAddr type a i) = a := by
  obtain ⟨k, rfl⟩ := ha.aligned
  have hinside := slot_inside hi
  rw [Nat.add_mul, Nat.one_mul] at hinside
  have hsize := sizeEntries_pos type
  have hoffset : slotAddr type (sizeof_dbHeader + k * BLOCKSIZE) i - sizeof_dbHeader =
      (sizeof_blockHeader + i * sizeEntries type) + BLOCKSIZE * k := by
    rw [slotAddr, Nat.mul_comm BLOCKSIZE]
    omega
  have hlt : sizeof_blockHeader + i * sizeEntries type < BLOCKSIZE := by omega
  rw [memoryDB.BlockBase, hoffset, Nat.add_mul_div_left _ _ (by decide : 0 < BLOCKSIZE), Nat.div_eq_of_lt hlt, Nat.zero_add,
    Nat.add_comm]

theorem slotAddr_slotIndex {eofPtr : ℕ} (ha : IsBlock eofPtr a) (hi : i < nEntries type) :
    slotIndex type (slotAddr type a i) = i := by
  have hoffset : slotAddr type a i - a - sizeof_blockHeader = i * sizeEntries type := by
    rw [slotAddr]
    omega
  rw [slotIndex, slotAddr_blockBase ha hi, hoffset, Nat.mul_div_cancel _ (sizeEntries_pos type)]

theorem slotAddr_inj {eofPtr b j : ℕ} (ha : IsBlock eofPtr a) (hi : i < nEntries type) (hb : IsBlock eofPtr b)
    (hj : j < nEntries type) (heq : slotAddr type a i = slotAddr type b j) : a = b ∧ i = j := by
  refine ⟨?_, ?_⟩
  · rw [← slotAddr_blockBase ha hi, heq, slotAddr_blockBase hb hj]
  · rw [← slotAddr_slotIndex ha hi, heq, slotAddr_slotIndex hb hj]

end Addresses

def InUse (uses : Use → List ℕ) (type : StructType) (a : ℕ) : Prop := a ∈ uses (.avail type) ∨ a ∈ uses (.full type)

def Live (db : Database) (uses : Use → List ℕ) (type : StructType) (sa : ℕ) : Prop :=
  ∃ a i, InUse uses type a ∧ i < nEntries type ∧ sa = slotAddr type a i ∧ (db.disk a).word i ≠ zeroWord

namespace InUse

theorem isBlock (hin : InUse uses type a) (h : Listed db uses) : IsBlock db.eofPtr a := hin.elim (h.isBlock _ a) (h.isBlock _ a)

theorem counted (hin : InUse uses type a) (h : Listed db uses) : Counted type (db.disk a) :=
  hin.elim (fun ha => (h.fits _ a ha).1) fun ha => (h.fits _ a ha).1

end InUse

theorem Live.congr (huses : ∀ t b, InUse uses' t b ↔ InUse uses t b)
    (hdisk : ∀ t b, InUse uses t b → ∀ j < nEntries t, (db'.disk b).word j = (db.disk b).word j) (t : StructType) (sa : ℕ) :
    Live db' uses' t sa ↔ Live db uses t sa := by
  constructor
  · rintro ⟨b, j, hin, hj, hsa, hword⟩
    have hin' := (huses t b).mp hin
    exact ⟨b, j, hin', hj, hsa, hdisk t b hin' j hj ▸ hword⟩
  · rintro ⟨b, j, hin, hj, hsa, hword⟩
    exact ⟨b, j, (huses t b).mpr hin, hj, hsa, (hdisk t b hin j hj).symm ▸ hword⟩

/-- Unused blocks of structures have been given back, and nothing else is different. -/
structure GivenBack (db : Database) (uses : Use → List ℕ) (db' : Database) (uses' : Use → List ℕ) : Prop where
  listed : Listed db' uses'
  held : uses' .held = uses .held
  live : ∀ t sa, Live db' uses' t sa ↔ Live db uses t sa

theorem GivenBack.first (h : Listed db uses) {rest : List ℕ} (ha : uses (.avail type) = a :: rest)
    (hall : (db.disk a).h.nFree = nEntries type) :
    GivenBack db uses (freed (setFreePtr db type (db.next a)) a) (moved uses (.avail type) .free a) := by
  have hmem : a ∈ uses (.avail type) := ha ▸ List.mem_cons_self
  have herase : moved uses (.avail type) .free a (.avail type) = rest := by
    rw [moved_from (by simp), ha, List.erase_cons_head]
  have hzeros : (db.disk a).zeros type = nEntries type := (h.fits _ a hmem).1.nFree.symm.trans hall
  have hgone : a ∉ rest := (List.nodup_cons.mp (ha ▸ h.apart.nodup (.avail type))).1
  have huses : ∀ t b, InUse (moved uses (.avail type) .free a) t b ↔ InUse uses t b ∧ b ≠ a := by
    intro t b
    have hfull : moved uses (.avail type) .free a (.full t) = uses (.full t) := moved_other (by simp) (by simp)
    have hnotFull : a ∉ uses (.full t) := fun hmem' => absurd (h.apart.unique hmem hmem') (by simp)
    by_cases ht : t = type
    · subst ht
      unfold InUse
      rw [herase, hfull, ha, List.mem_cons]
      grind
    · have havail : moved uses (.avail type) .free a (.avail t) = uses (.avail t) := moved_other (by simpa using ht) (by simp)
      have hnot : a ∉ uses (.avail t) := fun hmem' => ht (by simpa using (h.apart.unique hmem' hmem))
      unfold InUse
      rw [havail, hfull]
      grind
  refine ⟨h.freeAvail ha, moved_other (by simp) (by simp), fun t sa => ?_⟩
  have hdisk : ∀ b, b ≠ a → (freed (setFreePtr db type (db.next a)) a).disk b = db.disk b :=
    fun b hb => Function.update_of_ne hb ..
  constructor
  · rintro ⟨b, j, hin, hj, hsa, hword⟩
    obtain ⟨hin', hne⟩ := (huses t b).mp hin
    exact ⟨b, j, hin', hj, hsa, hdisk b hne ▸ hword⟩
  · rintro ⟨b, j, hin, hj, hsa, hword⟩
    have hne : b ≠ a := by
      rintro rfl
      have htype : t = type := by
        rcases hin with hin | hin
        · simpa using h.apart.unique hin hmem
        · exact absurd (h.apart.unique hin hmem) (by simp)
      subst htype
      exact hword (word_of_zeros hzeros hj)
    exact ⟨b, j, (huses t b).mpr ⟨hin, hne⟩, hj, hsa, (hdisk b hne).symm ▸ hword⟩

/-- The block that the search stops at is the first of its list, which it leaves with its last free structure. -/
structure Found (db : Database) (uses : Use → List ℕ) (type : StructType) (result : Database × ℕ × Block) (db₁ : Database)
    (uses₁ : Use → List ℕ) (rest : List ℕ) : Prop where
  back : GivenBack db uses db₁ uses₁
  first : uses₁ (.avail type) = result.2.1 :: rest
  block : result.2.2 = db₁.disk result.2.1
  left : result.1 = if result.2.2.h.nFree = 1 then setFreePtr db₁ type (db₁.next result.2.1) else db₁

theorem Listed.exists_first (h : Listed db uses) (hptr : db.freePtrs type ≠ 0) :
    ∃ rest, uses (.avail type) = db.freePtrs type :: rest := by
  have hchain := h.chained (.avail type) (db.freePtrs type) rfl
  cases hcells : uses (.avail type) with
  | nil =>
    rw [hcells] at hchain
    exact absurd hchain hptr
  | cons a rest =>
    rw [hcells] at hchain
    exact ⟨rest, by rw [hchain.1]⟩

theorem GivenBack.refl (h : Listed db uses) : GivenBack db uses db uses := ⟨h, rfl, fun _ _ => Iff.rfl⟩

theorem GivenBack.trans {db'' : Database} {uses'' : Use → List ℕ} (h : GivenBack db uses db' uses')
    (h' : GivenBack db' uses' db'' uses'') : GivenBack db uses db'' uses'' :=
  ⟨h'.listed, h'.held.trans h.held, fun t sa => (h'.live t sa).trans (h.live t sa)⟩

/-- What the search returns when it stops at the first block of the list. -/
def stopped (db : Database) (type : StructType) : Database × ℕ × Block :=
  let a := db.freePtrs type
  (if (db.disk a).h.nFree = 1 then setFreePtr db type (db.next a) else db, a, db.disk a)

theorem stopped_found (h : Listed db uses) {rest : List ℕ} (ha : uses (.avail type) = db.freePtrs type :: rest) :
    Found db uses type (stopped db type) db uses rest := ⟨.refl h, ha, rfl, rfl⟩

theorem search_eq (h : Listed db uses) (hptr : db.freePtrs type ≠ 0) (count : ℕ) :
    search type count db = .ok (stopped db type) ∨
      ∃ n, count = n + 1 ∧ db.next (db.freePtrs type) ≠ 0 ∧ (db.disk (db.freePtrs type)).h.nFree = nEntries type ∧
        search type count db = search type n (freed (setFreePtr db type (db.next (db.freePtrs type))) (db.freePtrs type)) := by
  obtain ⟨rest, ha⟩ := h.exists_first hptr
  have hmem : db.freePtrs type ∈ uses (.avail type) := ha ▸ List.mem_cons_self
  have hcount := (h.fits _ _ hmem).2
  have hsome : ¬ (db.disk (db.freePtrs type)).h.nFree = 0 := by omega
  rw [search.eq_def]
  dsimp only
  rw [h.dbread_ok hmem, Stop.ok_bind, if_neg hsome]
  by_cases hall : (db.disk (db.freePtrs type)).h.next ≠ 0 ∧ (db.disk (db.freePtrs type)).h.nFree = nEntries type
  · rw [if_pos hall]
    cases count with
    | zero =>
      have hmany : ¬ (db.disk (db.freePtrs type)).h.nFree = 1 := by
        rw [hall.2]
        cases type <;> decide
      left
      rw [stopped, if_neg hmany]
      rfl
    | succ n =>
      have hfreed : FreeBlock (setFreePtr db type (db.disk (db.freePtrs type)).h.next) (db.freePtrs type) =
          .ok (freed (setFreePtr db type (db.next (db.freePtrs type))) (db.freePtrs type)) :=
        FreeBlock_eq (setFreePtr db type _) (h.isBlock _ _ hmem) h.limit
      refine .inr ⟨n, rfl, hall.1, hall.2, ?_⟩
      dsimp only
      rw [hfreed, Stop.ok_bind]
  · left
    rw [if_neg hall, stopped]
    by_cases hone : (db.disk (db.freePtrs type)).h.nFree = 1
    · rw [if_pos hone, if_pos hone]
      rfl
    · rw [if_neg hone, if_neg hone]
      rfl

theorem search_spec (count : ℕ) (h : Listed db uses) (hptr : db.freePtrs type ≠ 0) :
    ∃ result db₁ uses₁ rest, search type count db = .ok result ∧ Found db uses type result db₁ uses₁ rest := by
  induction count generalizing db uses with
  | zero =>
    obtain ⟨rest, ha⟩ := h.exists_first hptr
    rcases search_eq h hptr 0 with hstop | ⟨n, hn, -⟩
    · exact ⟨_, db, uses, rest, hstop, stopped_found h ha⟩
    · exact absurd hn (Nat.succ_ne_zero n).symm
  | succ count ih =>
    obtain ⟨rest, ha⟩ := h.exists_first hptr
    rcases search_eq h hptr (count + 1) with hstop | ⟨n, hn, hnext, hall, hgo⟩
    · exact ⟨_, db, uses, rest, hstop, stopped_found h ha⟩
    · obtain rfl := Nat.succ.inj hn
      have hback := GivenBack.first h ha hall
      have hself : (freed (setFreePtr db type (db.next (db.freePtrs type))) (db.freePtrs type)).freePtrs type =
          db.next (db.freePtrs type) := Function.update_self type _ db.freePtrs
      obtain ⟨result, db₁, uses₁, rest₁, hok, hfound⟩ := ih hback.listed (by rw [hself]; exact hnext)
      exact ⟨result, db₁, uses₁, rest₁, hgo.trans hok, hback.trans hfound.back, hfound.first, hfound.block, hfound.left⟩

theorem InUse.unique {t : StructType} (h : Listed db uses) (hin : InUse uses type a) (hin' : InUse uses t a) : t = type := by
  rcases hin with hin | hin <;> rcases hin' with hin' | hin' <;> have heq := h.apart.unique hin' hin
  · exact Use.avail.inj heq
  · exact absurd heq (by simp)
  · exact absurd heq (by simp)
  · exact Use.full.inj heq

theorem Live.update (h : Listed db uses) (huses : ∀ t b, InUse uses' t b ↔ InUse uses t b) (hin : InUse uses type a)
    (hi : i < nEntries type) (word : Octets) (hother : ∀ c, c ≠ a → db'.disk c = db.disk c)
    (hword : (db'.disk a).word = Function.update (db.disk a).word i word) (t : StructType) (sa : ℕ) :
    Live db' uses' t sa ↔ (t = type ∧ sa = slotAddr type a i ∧ word ≠ zeroWord) ∨
      ¬(t = type ∧ sa = slotAddr type a i) ∧ Live db uses t sa := by
  have ha := hin.isBlock h
  constructor
  · rintro ⟨b, j, hb, hj, hsa, hused⟩
    have hb' := (huses t b).mp hb
    by_cases hthis : t = type ∧ sa = slotAddr type a i
    · obtain ⟨rfl, hslot⟩ := hthis
      obtain ⟨rfl, rfl⟩ := slotAddr_inj (hb'.isBlock h) hj ha hi (hsa.symm.trans hslot)
      rw [hword, Function.update_self] at hused
      exact .inl ⟨rfl, hslot, hused⟩
    · refine .inr ⟨hthis, b, j, hb', hj, hsa, ?_⟩
      by_cases hba : b = a
      · subst hba
        obtain rfl := InUse.unique h hin hb'
        have hji : j ≠ i := fun heq => hthis ⟨rfl, heq ▸ hsa⟩
        rwa [hword, Function.update_of_ne hji] at hused
      · rwa [hother b hba] at hused
  · rintro (⟨rfl, rfl, hused⟩ | ⟨hthis, b, j, hb, hj, hsa, hused⟩)
    · refine ⟨a, i, (huses t a).mpr hin, hi, rfl, ?_⟩
      rwa [hword, Function.update_self]
    · refine ⟨b, j, (huses t b).mpr hb, hj, hsa, ?_⟩
      by_cases hba : b = a
      · subst hba
        obtain rfl := InUse.unique h hin hb
        have hji : j ≠ i := fun heq => hthis ⟨rfl, heq ▸ hsa⟩
        rwa [hword, Function.update_of_ne hji]
      · rwa [hother b hba]

theorem toMemory_one_ne (order : ByteOrder) : order.toMemory 1 ≠ zeroWord := by cases order <;> decide

/-- A block is written and comes to the front of the list of its type. -/
def pushed (db : Database) (type : StructType) (a : ℕ) (b : Block) : Database :=
  { setFreePtr db type a with disk := Function.update db.disk a b }

theorem Listed.push (h : Listed db uses) {x : Use} (hx : db.head x = none) (hmem : a ∈ uses x) {b : Block}
    (hfits : Fits (.avail type) b) (hnext : b.h.next = db.freePtrs type) :
    Listed (pushed db type a b) (moved uses x (.avail type) a) := by
  have hne : x ≠ .avail type := by
    rintro rfl
    exact absurd hx (by simp [Database.head])
  have hnot : a ∉ uses (.avail type) := fun havail => hne (h.apart.unique hmem havail)
  refine h.move (a := a) (x := x) (y := .avail type) hne ?_ ?_ (fun z => moved_other) rfl
    (fun c hc => Function.update_of_ne hc ..) ?_ (fun z _ hzy => ?_) (fun p hp => ?_) fun p hp => ?_
  · rw [moved_from hne]
    exact List.perm_cons_erase hmem
  · rw [moved_to]
  · change Fits _ (Function.update db.disk a b a)
    rwa [Function.update_self]
  · cases z with
    | avail other =>
      have hother : other ≠ type := fun heq => hzy (congrArg Use.avail heq)
      exact congrArg some (Function.update_of_ne hother ..)
    | _ => rfl
  · cases x with
    | held => exact absurd hp (by simp [Database.head])
    | full other => exact absurd hp (by simp [Database.head])
    | free => exact absurd hx (by simp [Database.head])
    | avail other => exact absurd hx (by simp [Database.head])
  · have hpa : a = p := by
      have hhead := Option.some.inj hp
      rw [← hhead]
      exact (Function.update_self type a db.freePtrs).symm
    subst hpa
    have hlink : (pushed db type a b).next a = db.freePtrs type := by
      change (Function.update db.disk a b a).h.next = _
      rwa [Function.update_self]
    rw [moved_to]
    refine ⟨rfl, (h.isBlock x a hmem).ne_zero, ?_⟩
    rw [hlink]
    exact Chained.frame (h.chained _ _ rfl) hnot fun c hc => Function.update_of_ne hc ..

/-- What `AllocStructure` does: a structure is in use that was not. -/
structure Alloced (db : Database) (uses : Use → List ℕ) (type : StructType) (db' : Database) (uses' : Use → List ℕ) (sa : ℕ) :
    Prop where
  listed : Listed db' uses'
  held : uses' .held = uses .held
  fresh : ¬ Live db uses type sa
  live : ∀ t sa', Live db' uses' t sa' ↔ (t = type ∧ sa' = sa) ∨ Live db uses t sa'

/-- A new block of structures, of which the first is taken. -/
def newBlock (order : ByteOrder) (type : StructType) : Block :=
  ⟨⟨.structure_BLOCK type, nEntries type - 1, 0⟩, Function.update (fun _ => zeroWord) 0 (order.toMemory 1)⟩

theorem newBlock_counted (order : ByteOrder) (type : StructType) :
    Counted type (newBlock order type) ∧ 1 ≤ (newBlock order type).h.nFree := by
  have hzero : (Block.zero).zeros type = nEntries type := by cases type <;> decide
  have hpos : 0 < nEntries type := by cases type <;> decide
  have hmany : 1 ≤ nEntries type - 1 := by cases type <;> decide
  have hupdate := zeros_update (b := Block.zero) ⟨.structure_BLOCK type, nEntries type - 1, 0⟩ (order.toMemory 1) hpos
  have hfirst : (Block.zero).word 0 = zeroWord := rfl
  rw [if_pos hfirst, if_neg (toMemory_one_ne order), hzero] at hupdate
  refine ⟨⟨rfl, ?_⟩, hmany⟩
  change nEntries type - 1 = Block.zeros ⟨_, Function.update (Block.zero).word 0 (order.toMemory 1)⟩ type
  omega

theorem Alloced.newBlock (order : ByteOrder) {db₁ : Database} {uses₁ : Use → List ℕ} (hnone : uses (.avail type) = [])
    (hblock : BlockAlloced db uses db₁ uses₁ a) :
    Alloced db uses type (pushed db₁ type a (newBlock order type)) (moved uses₁ .held (.avail type) a) (slotAddr type a 0) := by
  have hmem : a ∈ uses₁ .held := hblock.held ▸ List.mem_cons_self
  have ha := hblock.listed.isBlock .held a hmem
  have herase : (uses₁ .held).erase a = uses .held := by rw [hblock.held, List.erase_cons_head]
  have hnotAvail : ∀ t, a ∉ uses (.avail t) := fun t => hblock.fresh _ (by simp)
  have hnotFull : ∀ t, a ∉ uses (.full t) := fun t => hblock.fresh _ (by simp)
  have hzero : 0 < nEntries type := by cases type <;> decide
  have hnull : uses₁ (.avail type) = [] := (hblock.avail type).trans hnone
  have huses : ∀ t b, InUse (moved uses₁ .held (.avail type) a) t b ↔ (t = type ∧ b = a) ∨ InUse uses t b := by
    intro t b
    have hfull : moved uses₁ .held (.avail type) a (.full t) = uses (.full t) :=
      (moved_other (by simp) (by simp)).trans (hblock.full t)
    by_cases ht : t = type
    · subst ht
      unfold InUse
      rw [moved_to, hfull, hnull, hnone]
      simp
    · have havail : moved uses₁ .held (.avail type) a (.avail t) = uses (.avail t) :=
        (moved_other (by simp) (by simpa using ht)).trans (hblock.avail t)
      unfold InUse
      rw [hfull, havail]
      simp [ht]
  refine ⟨?_, (moved_from (by simp)).trans herase, ?_, fun t sa => ?_⟩
  · have hnext : (dce.bak.alloc.newBlock order type).h.next = db₁.freePtrs type := by
      have hchain := hblock.listed.chained (.avail type) _ rfl
      rw [hnull] at hchain
      exact Eq.symm hchain
    exact hblock.listed.push rfl hmem (newBlock_counted order type) hnext
  · rintro ⟨b, j, hb, hj, hsa, -⟩
    have hbBlock : IsBlock db₁.eofPtr b := by
      rcases hb with hb | hb
      · exact hblock.listed.isBlock _ b (hblock.avail type ▸ hb)
      · exact hblock.listed.isBlock _ b (hblock.full type ▸ hb)
    obtain ⟨rfl, -⟩ := slotAddr_inj ha hzero hbBlock hj hsa
    exact hb.elim (hnotAvail type) (hnotFull type)
  · constructor
    · rintro ⟨b, j, hb, hj, hsa, hword⟩
      change (Function.update db₁.disk a _ b).word j ≠ _ at hword
      rcases (huses t b).mp hb with ⟨rfl, rfl⟩ | hb
      · rw [Function.update_self] at hword
        have hj0 : j = 0 := by
          by_contra hne
          have hzero : (dce.bak.alloc.newBlock order t).word j = zeroWord := by simp [dce.bak.alloc.newBlock, hne]
          exact hword hzero
        exact .inl ⟨rfl, hj0 ▸ hsa⟩
      · have hne : b ≠ a := fun heq => hb.elim (heq ▸ hnotAvail t) (heq ▸ hnotFull t)
        rw [Function.update_of_ne hne, hblock.disk b hne] at hword
        exact .inr ⟨b, j, hb, hj, hsa, hword⟩
    · rintro (⟨rfl, rfl⟩ | ⟨b, j, hb, hj, hsa, hword⟩)
      · refine ⟨a, 0, (huses t a).mpr (.inl ⟨rfl, rfl⟩), hzero, rfl, ?_⟩
        change (Function.update db₁.disk a _ a).word 0 ≠ _
        rw [Function.update_self]
        exact toMemory_one_ne order
      · have hne : b ≠ a := fun heq => hb.elim (heq ▸ hnotAvail t) (heq ▸ hnotFull t)
        refine ⟨b, j, (huses t b).mpr (.inr hb), hj, hsa, ?_⟩
        change (Function.update db₁.disk a _ b).word j ≠ _
        rwa [Function.update_of_ne hne, hblock.disk b hne]

theorem Alloced.found (order : ByteOrder) {db₁ : Database} {uses₁ : Use → List ℕ} {result : Database × ℕ × Block} {rest : List ℕ}
    (hfound : Found db uses type result db₁ uses₁ rest) (hi : i < nEntries type) (hfree : result.2.2.word i = zeroWord) :
    ∃ uses', Alloced db uses type
      { result.1 with
        disk := Function.update result.1.disk result.2.1
          ⟨{ result.2.2.h with nFree := result.2.2.h.nFree - 1 }, Function.update result.2.2.word i (order.toMemory 1)⟩ }
      uses' (slotAddr type result.2.1 i) := by
  obtain ⟨left, a, b⟩ := result
  obtain ⟨⟨hlisted, hheld, hlive⟩, hfirst, hblock, hleft⟩ := hfound
  dsimp only at hfirst hfree hblock hleft ⊢
  subst hblock
  replace hleft : left = if (db₁.disk a).h.nFree = 1 then setFreePtr db₁ type (db₁.next a) else db₁ := hleft
  subst hleft
  have hmem : a ∈ uses₁ (.avail type) := hfirst ▸ List.mem_cons_self
  have hin : InUse uses₁ type a := .inl hmem
  obtain ⟨⟨htyped, hnFree⟩, hsome⟩ := hlisted.fits _ a hmem
  have hzeros := zeros_update (b := db₁.disk a) { (db₁.disk a).h with nFree := (db₁.disk a).h.nFree - 1 } (order.toMemory 1) hi
  rw [if_pos hfree, if_neg (toMemory_one_ne order)] at hzeros
  have hcounted : Counted type ⟨{ (db₁.disk a).h with nFree := (db₁.disk a).h.nFree - 1 },
      Function.update (db₁.disk a).word i (order.toMemory 1)⟩ := by
    refine ⟨htyped, ?_⟩
    change (db₁.disk a).h.nFree - 1 = _
    omega
  have hfresh : ¬ Live db₁ uses₁ type (slotAddr type a i) := by
    rintro ⟨b, j, hb, hj, hsa, hused⟩
    obtain ⟨rfl, rfl⟩ := slotAddr_inj (hin.isBlock hlisted) hi (hb.isBlock hlisted) hj hsa
    exact hused hfree
  have hlive' : ∀ {db' : Database} {uses' : Use → List ℕ}, (∀ t b, InUse uses' t b ↔ InUse uses₁ t b) →
      (∀ c, c ≠ a → db'.disk c = db₁.disk c) → (db'.disk a).word = Function.update (db₁.disk a).word i (order.toMemory 1) →
      ∀ t sa, Live db' uses' t sa ↔ (t = type ∧ sa = slotAddr type a i) ∨ Live db uses t sa := by
    intro db' uses' huses hother hword t sa
    rw [Live.update hlisted huses hin hi _ hother hword, hlive]
    have hne := toMemory_one_ne order
    constructor
    · rintro (⟨ht, hsa, -⟩ | ⟨-, hold⟩)
      · exact .inl ⟨ht, hsa⟩
      · exact .inr hold
    · rintro (⟨ht, hsa⟩ | hold)
      · exact .inl ⟨ht, hsa, hne⟩
      · by_cases hthis : t = type ∧ sa = slotAddr type a i
        · exact .inl ⟨hthis.1, hthis.2, hne⟩
        · exact .inr ⟨hthis, hold⟩
  by_cases hone : (db₁.disk a).h.nFree = 1
  · -- the block leaves its list
    rw [if_pos hone]
    have herase : moved uses₁ (.avail type) (.full type) a (.avail type) = rest := by
      rw [moved_from (by simp), hfirst, List.erase_cons_head]
    have hgone : a ∉ rest := (List.nodup_cons.mp (hfirst ▸ hlisted.apart.nodup (.avail type))).1
    have hchain := hlisted.chained (.avail type) (db₁.freePtrs type) rfl
    rw [hfirst] at hchain
    refine ⟨moved uses₁ (.avail type) (.full type) a, ?_, (moved_other (by simp) (by simp)).trans hheld,
      fun hold => hfresh ((hlive _ _).mpr hold), hlive' (fun t c => ?_) (fun c hc => Function.update_of_ne hc ..) ?_⟩
    · refine hlisted.move (a := a) (x := .avail type) (y := .full type) (by simp) ?_ ?_ (fun z => moved_other) rfl
        (fun c hc => Function.update_of_ne hc ..) ?_ (fun z hzx _ => ?_) (fun p hp => ?_) fun p hp => absurd hp (by simp [Database.head])
      · rw [herase, hfirst]
      · rw [moved_to]
      · change Fits _ (Function.update db₁.disk a _ a)
        rw [Function.update_self]
        refine ⟨hcounted, ?_⟩
        dsimp only
        omega
      · cases z with
        | avail other =>
          have hother : other ≠ type := fun heq => hzx (congrArg Use.avail heq)
          exact congrArg some (Function.update_of_ne hother ..)
        | _ => rfl
      · obtain rfl : db₁.next a = p := by
          have hhead := Option.some.inj hp
          rw [← hhead]
          exact (Function.update_self type (db₁.next a) db₁.freePtrs).symm
        rw [herase]
        exact Chained.frame hchain.2.2 hgone fun c hc => Function.update_of_ne hc ..
    · by_cases ht : t = type
      · subst ht
        unfold InUse
        rw [herase, moved_to, hfirst]
        simp only [List.mem_cons]
        tauto
      · have havail : moved uses₁ (.avail type) (.full type) a (.avail t) = uses₁ (.avail t) :=
          moved_other (by simpa using ht) (by simp)
        have hfull : moved uses₁ (.avail type) (.full type) a (.full t) = uses₁ (.full t) :=
          moved_other (by simp) (by simpa using ht)
        unfold InUse
        rw [havail, hfull]
    · change (Function.update db₁.disk a _ a).word = _
      rw [Function.update_self]
  · rw [if_neg hone]
    refine ⟨uses₁, hlisted.keep hmem ⟨hcounted, ?_⟩ fun _ => rfl, hheld, fun hold => hfresh ((hlive _ _).mpr hold),
      hlive' (fun _ _ => Iff.rfl) (fun c hc => Function.update_of_ne hc ..) ?_⟩
    · dsimp only
      omega
    · change (Function.update db₁.disk a _ a).word = _
      rw [Function.update_self]

theorem AllocStructure_spec (order : ByteOrder) (type : StructType) (h : Listed db uses) :
    AllocStructure order db type = .error .ubik ∨
      ∃ db' sa uses', AllocStructure order db type = .ok (db', sa) ∧ Alloced db uses type db' uses' sa := by
  unfold AllocStructure
  by_cases hptr : db.freePtrs type = 0
  · rw [if_pos hptr]
    have hchain := h.chained (.avail type) (db.freePtrs type) rfl
    have hnone : uses (.avail type) = [] := by
      cases hcells : uses (.avail type) with
      | nil => rfl
      | cons b rest =>
        rw [hcells] at hchain
        exact absurd hptr hchain.2.1
    rcases AllocBlock_spec h with hfull | ⟨db₁, a, uses₁, hok, hblock⟩
    · rw [hfull]
      exact .inl rfl
    · have hmem : a ∈ uses₁ .held := hblock.held ▸ List.mem_cons_self
      have hwrite := dbwrite_ok (setFreePtr db₁ type a) (hblock.listed.isBlock .held a hmem) hblock.listed.limit
        (newBlock order type)
      refine .inr ⟨_, _, _, ?_, .newBlock order hnone hblock⟩
      rw [hok, Stop.ok_bind]
      change (dbwrite (setFreePtr db₁ type a) a (newBlock order type) >>= fun db'' => Except.ok (db'', slotAddr type a 0)) = _
      rw [hwrite, Stop.ok_bind]
      rfl
  · rw [if_neg hptr]
    obtain ⟨result, db₁, uses₁, rest, hok, hfound⟩ := search_spec 10 h hptr
    have hmem : result.2.1 ∈ uses₁ (.avail type) := hfound.first ▸ List.mem_cons_self
    have hfits := hfound.back.listed.fits _ _ hmem
    obtain ⟨i, hfirst, hi, hfree⟩ := firstFree_spec result.2.2 type (by
      rw [hfound.block, ← hfits.1.nFree]
      exact hfits.2)
    obtain ⟨uses', halloced⟩ := Alloced.found order hfound hi hfree
    refine .inr ⟨_, _, uses', ?_, halloced⟩
    have hblock : IsBlock result.1.eofPtr result.2.1 := by
      rw [hfound.left]
      split <;> exact hfound.back.listed.isBlock _ _ hmem
    have hlimit : result.1.eofPtr ≤ fileLimit := by
      rw [hfound.left]
      split <;> exact hfound.back.listed.limit
    rw [hok, Stop.ok_bind]
    dsimp only
    rw [hfirst]
    dsimp only
    rw [dbwrite_ok _ hblock hlimit, Stop.ok_bind]
    rfl

/-- What `FreeStructure` does: a structure that was in use is not. -/
structure StructFreed (db : Database) (uses : Use → List ℕ) (type : StructType) (sa : ℕ) (db' : Database)
    (uses' : Use → List ℕ) : Prop where
  listed : Listed db' uses'
  held : uses' .held = uses .held
  live : ∀ t sa', Live db' uses' t sa' ↔ ¬(t = type ∧ sa' = sa) ∧ Live db uses t sa'

theorem FreeStructure_spec (h : Listed db uses) (hlive : Live db uses type sa) :
    ∃ db' uses', FreeStructure db type sa = .ok db' ∧ StructFreed db uses type sa db' uses' := by
  obtain ⟨a, i, hin, hi, rfl, hused⟩ := hlive
  have ha := hin.isBlock h
  have hcounted := hin.counted h
  have hzeros : (Block.mk (db.disk a).h (Function.update (db.disk a).word i zeroWord)).zeros type = (db.disk a).zeros type + 1 := by
    have hupdate := zeros_update (b := db.disk a) (db.disk a).h zeroWord hi
    rwa [if_neg hused, if_pos rfl] at hupdate
  have hroom : ¬ nEntries type < (db.disk a).h.nFree + 1 := by
    have hle := zeros_le ⟨(db.disk a).h, Function.update (db.disk a).word i zeroWord⟩ type
    rw [hcounted.nFree]
    omega
  have hread : dbread db a = .ok (db.disk a) := hin.elim h.dbread_ok h.dbread_ok
  have hlive' : ∀ {db' : Database} {uses' : Use → List ℕ}, (∀ t b, InUse uses' t b ↔ InUse uses t b) →
      (∀ c, c ≠ a → db'.disk c = db.disk c) → (db'.disk a).word = Function.update (db.disk a).word i zeroWord →
      ∀ t sa, Live db' uses' t sa ↔ ¬(t = type ∧ sa = slotAddr type a i) ∧ Live db uses t sa := by
    intro db' uses' huses hother hword t sa
    rw [Live.update h huses hin hi _ hother hword]
    simp
  unfold FreeStructure
  dsimp only
  rw [slotAddr_blockBase ha hi, slotAddr_slotIndex ha hi, hread, Stop.ok_bind, if_neg (not_not_intro hcounted.typed), if_neg hroom]
  by_cases hfirst : (db.disk a).h.nFree + 1 = 1
  · -- the block comes to the front of its list
    have hmem : a ∈ uses (.full type) := by
      rcases hin with hin | hin
      · have hsome := (h.fits _ a hin).2
        omega
      · exact hin
    have hwrite := dbwrite_ok (setFreePtr db type a) ha h.limit
      ⟨{ (db.disk a).h with nFree := 1, next := db.freePtrs type }, Function.update (db.disk a).word i zeroWord⟩
    rw [if_pos hfirst, hwrite]
    refine ⟨_, moved uses (.full type) (.avail type) a, rfl, h.push rfl hmem ⟨⟨hcounted.typed, ?_⟩, Nat.le_refl 1⟩ rfl,
      moved_other (by simp) (by simp), hlive' (fun t c => ?_) (fun c hc => Function.update_of_ne hc ..) ?_⟩
    · have hn := hcounted.nFree
      change 1 = (Block.mk (db.disk a).h _).zeros type
      omega
    · by_cases ht : t = type
      · subst ht
        unfold InUse
        rw [moved_to, moved_from (by simp), List.mem_cons, (h.apart.nodup _).mem_erase_iff]
        by_cases hca : c = a
        · simp [hca, hmem]
        · simp [hca]
      · have havail : moved uses (.full type) (.avail type) a (.avail t) = uses (.avail t) :=
          moved_other (by simp) (by simpa using ht)
        have hfull : moved uses (.full type) (.avail type) a (.full t) = uses (.full t) :=
          moved_other (by simpa using ht) (by simp)
        unfold InUse
        rw [havail, hfull]
    · change (Function.update db.disk a _ a).word = _
      rw [Function.update_self]
  · have hmem : a ∈ uses (.avail type) := by
      rcases hin with hin | hin
      · exact hin
      · have hnone := (h.fits _ a hin).2
        omega
    rw [if_neg hfirst, dbwrite_ok _ ha h.limit]
    refine ⟨_, uses, rfl, h.keep hmem ⟨⟨hcounted.typed, ?_⟩, Nat.le_add_left 1 _⟩ fun _ => rfl, rfl,
      hlive' (fun _ _ => Iff.rfl) (fun c hc => Function.update_of_ne hc ..) ?_⟩
    · have hn := hcounted.nFree
      change (db.disk a).h.nFree + 1 = (Block.mk (db.disk a).h _).zeros type
      omega
    · change (Function.update db.disk a _ a).word = _
      rw [Function.update_self]

theorem put_spec {word : Octets} (h : Listed db uses) (hlive : Live db uses type sa) (hword : word ≠ zeroWord) :
    Listed (State.put db type sa word) uses ∧ ∀ t sa', Live (State.put db type sa word) uses t sa' ↔ Live db uses t sa' := by
  obtain ⟨a, i, hin, hi, rfl, hused⟩ := hlive
  have ha := hin.isBlock h
  have hput : State.put db type (slotAddr type a i) word =
      { db with disk := Function.update db.disk a { db.disk a with word := Function.update (db.disk a).word i word } } := by
    rw [State.put]
    dsimp only
    rw [slotAddr_blockBase ha hi, slotAddr_slotIndex ha hi]
  have hcounted : Counted type { db.disk a with word := Function.update (db.disk a).word i word } := by
    have hzeros := zeros_update (b := db.disk a) (db.disk a).h word hi
    rw [if_neg hused, if_neg hword] at hzeros
    exact ⟨(hin.counted h).typed, (hin.counted h).nFree.trans hzeros.symm⟩
  rw [hput]
  refine ⟨?_, fun t sa' => ?_⟩
  · rcases hin with hmem | hmem
    · exact h.keep hmem ⟨hcounted, (h.fits _ a hmem).2⟩ fun _ => rfl
    · exact h.keep hmem ⟨hcounted, (h.fits _ a hmem).2⟩ fun _ => rfl
  · rw [Live.update h (fun _ _ => Iff.rfl) hin hi word (fun c hc => Function.update_of_ne hc ..) (by simp) t sa']
    constructor
    · rintro (⟨rfl, rfl, -⟩ | ⟨-, hold⟩)
      · exact ⟨a, i, hin, hi, rfl, hused⟩
      · exact hold
    · intro hold
      by_cases hthis : t = type ∧ sa' = slotAddr type a i
      · exact .inl ⟨hthis.1, hthis.2, hword⟩
      · exact .inr ⟨hthis, hold⟩

end dce.bak.alloc
