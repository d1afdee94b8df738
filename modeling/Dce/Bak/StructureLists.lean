import Dce.Bak.Blocks
import Dce.Bak.Structures

open lib

namespace dce.bak.alloc

/-- What a block is there for: `avail` blocks are on the list of their type, `full` ones have no free structure. -/
inductive Use where
  | free
  | held
  | avail (type : StructType)
  | full (type : StructType)
  deriving DecidableEq

/-- The head of the list on which the blocks of this use are. -/
def Database.head (db : Database) : Use → Option ℕ
  | .free => some db.freePtr
  | .avail type => some (db.freePtrs type)
  | .held | .full _ => none

/-- A block of structures whose count is right. -/
structure Counted (type : StructType) (b : Block) : Prop where
  typed : b.h.type = .structure_BLOCK type
  nFree : b.h.nFree = b.zeros type

def Fits : Use → Block → Prop
  | .free, b => b.h.type = .free_BLOCK
  | .held, _ => True
  | .avail type, b => Counted type b ∧ 1 ≤ b.h.nFree
  | .full type, b => Counted type b ∧ b.h.nFree = 0

/-- Every block has one use, and the lists hold the blocks that they should. -/
structure Listed (db : Database) (uses : Use → List ℕ) : Prop where
  apart : Apart uses
  isBlock : ∀ u, ∀ a ∈ uses u, IsBlock db.eofPtr a
  used : ∀ a, IsBlock db.eofPtr a → ∃ u, a ∈ uses u
  aligned : ∃ k, db.eofPtr = sizeof_dbHeader + k * BLOCKSIZE
  limit : db.eofPtr ≤ fileLimit
  chained : ∀ u p, db.head u = some p → Chained db.next 0 p (uses u)
  fits : ∀ u, ∀ a ∈ uses u, Fits u (db.disk a)

variable {db db' : Database} {uses uses' : Use → List ℕ} {a : ℕ} {type : StructType} {order : ByteOrder}

theorem Chained.frame {cells : List ℕ} {p : ℕ} (h : Chained db.next 0 p cells) (ha : a ∉ cells)
    (hdisk : ∀ c, c ≠ a → db'.disk c = db.disk c) : Chained db'.next 0 p cells := by
  refine h.congr fun c hc => ?_
  have hne : c ≠ a := fun heq => ha (heq ▸ hc)
  exact congrArg (fun b : Block => b.h.next) (hdisk c hne)

namespace Listed

theorem move (h : Listed db uses) {x y : Use} (hne : x ≠ y) (hfrom : (uses x).Perm (a :: uses' x))
    (hto : (uses' y).Perm (a :: uses y)) (hother : ∀ z, z ≠ x → z ≠ y → uses' z = uses z)
    (heof : db'.eofPtr = db.eofPtr) (hdisk : ∀ c, c ≠ a → db'.disk c = db.disk c) (hfits : Fits y (db'.disk a))
    (hhead : ∀ z, z ≠ x → z ≠ y → db'.head z = db.head z)
    (hx : ∀ p, db'.head x = some p → Chained db'.next 0 p (uses' x))
    (hy : ∀ p, db'.head y = some p → Chained db'.next 0 p (uses' y)) : Listed db' uses' := by
  have hperm : ∀ z, z ≠ x → z ≠ y → (uses' z).Perm (uses z) := fun z hzx hzy => by rw [hother z hzx hzy]
  have hmove := h.apart.mem_move hne hfrom hto hperm
  have hax : a ∈ uses x := hfrom.mem_iff.mpr List.mem_cons_self
  refine ⟨h.apart.move hne hfrom hto hperm, fun u b hb => ?_, fun b hb => ?_, heof ▸ h.aligned, heof ▸ h.limit,
    fun z p hp => ?_, fun u b hb => ?_⟩
  · rw [heof]
    rcases (hmove b u).mp hb with ⟨rfl, -⟩ | ⟨-, hb⟩
    · exact h.isBlock x b hax
    · exact h.isBlock u b hb
  · rw [heof] at hb
    by_cases hba : b = a
    · exact ⟨y, (hmove b y).mpr (.inl ⟨hba, rfl⟩)⟩
    · obtain ⟨u, hu⟩ := h.used b hb
      exact ⟨u, (hmove b u).mpr (.inr ⟨hba, hu⟩)⟩
  · by_cases hzx : z = x
    · exact hzx ▸ hx p (hzx ▸ hp)
    · by_cases hzy : z = y
      · exact hzy ▸ hy p (hzy ▸ hp)
      · rw [hhead z hzx hzy] at hp
        rw [hother z hzx hzy]
        have haz : a ∉ uses z := fun hmem => hzx (h.apart.unique hmem hax)
        exact Chained.frame (h.chained z p hp) haz hdisk
  · rcases (hmove b u).mp hb with ⟨rfl, rfl⟩ | ⟨hba, hb⟩
    · exact hfits
    · rw [hdisk b hba]
      exact h.fits u b hb

theorem keep (h : Listed db uses) {u : Use} (ha : a ∈ uses u) {b : Block} (hfits : Fits u b)
    (hnext : (∃ p, db.head u = some p) → b.h.next = db.next a) :
    Listed { db with disk := Function.update db.disk a b } uses := by
  refine ⟨h.apart, h.isBlock, h.used, h.aligned, h.limit, fun z p hp => ?_, fun v c hc => ?_⟩
  · have hp' : db.head z = some p := by cases z <;> exact hp
    by_cases hz : z = u
    · subst hz
      refine (h.chained z p hp').congr fun c _ => ?_
      by_cases hca : c = a
      · subst hca
        change (Function.update db.disk c b c).h.next = _
        rw [Function.update_self]
        exact hnext ⟨p, hp'⟩
      · change (Function.update db.disk a b c).h.next = _
        rw [Function.update_of_ne hca]
        rfl
    · refine Chained.frame (h.chained z p hp') (fun hmem => hz (h.apart.unique hmem ha)) fun c hca => ?_
      exact Function.update_of_ne hca ..
  · change Fits v (Function.update db.disk a b c)
    by_cases hca : c = a
    · subst hca
      rw [Function.update_self]
      exact h.apart.unique ha hc ▸ hfits
    · rw [Function.update_of_ne hca]
      exact h.fits v c hc

theorem header_le (h : Listed db uses) : sizeof_dbHeader ≤ db.eofPtr := by
  obtain ⟨k, hk⟩ := h.aligned
  omega

theorem dbread_ok (h : Listed db uses) {u : Use} (ha : a ∈ uses u) : dbread db a = .ok (db.disk a) := by
  have hinside := (h.isBlock u a ha).inside
  unfold BLOCKSIZE at hinside
  rw [dbread, if_neg (by omega)]

end Listed

theorem dbwrite_ok (db : Database) (hblock : IsBlock db.eofPtr a) (hlimit : db.eofPtr ≤ fileLimit) (b : Block) :
    dbwrite db a b = .ok { db with disk := Function.update db.disk a b } := by
  have hinside := hblock.inside
  have hle := hblock.le
  unfold BLOCKSIZE at hinside
  have hin : ¬(a < sizeof_dbHeader ∨ db.eofPtr ≤ a) := by omega
  have hfits : ¬ fileLimit < a + BLOCKSIZE := Nat.not_lt.mpr (Nat.le_trans hblock.inside hlimit)
  rw [dbwrite, if_neg hin, if_neg hfits]

/-- The uses when the first block of a list, or a held one, gets another use. -/
def moved (uses : Use → List ℕ) (x y : Use) (a : ℕ) : Use → List ℕ :=
  Function.update (Function.update uses x ((uses x).erase a)) y (a :: uses y)

section Moved

variable {x y : Use}

theorem moved_to : moved uses x y a y = a :: uses y := Function.update_self ..

theorem moved_from (hne : x ≠ y) : moved uses x y a x = (uses x).erase a := by
  rw [moved, Function.update_of_ne hne, Function.update_self]

theorem moved_other {z : Use} (hzx : z ≠ x) (hzy : z ≠ y) : moved uses x y a z = uses z := by
  rw [moved, Function.update_of_ne hzy, Function.update_of_ne hzx]

end Moved

theorem Listed.extend (h : Listed db uses) (hroom : db.eofPtr + BLOCKSIZE ≤ fileLimit) :
    Listed { db with eofPtr := db.eofPtr + BLOCKSIZE, disk := Function.update db.disk db.eofPtr Block.zero }
      (Function.update uses .held (db.eofPtr :: uses .held)) := by
  obtain ⟨k, hk⟩ := h.aligned
  have hblock : IsBlock (db.eofPtr + BLOCKSIZE) db.eofPtr := ⟨⟨k, hk⟩, Nat.le_refl _⟩
  have hfresh : ∀ v, db.eofPtr ∉ uses v := by
    intro v hmem
    have hinside := (h.isBlock v _ hmem).inside
    unfold BLOCKSIZE at hinside
    omega
  have hother : ∀ z, z ≠ Use.held → Function.update uses .held (db.eofPtr :: uses .held) z = uses z :=
    fun z hz => Function.update_of_ne hz ..
  have hmem : ∀ z c, c ∈ Function.update uses .held (db.eofPtr :: uses .held) z → (c = db.eofPtr ∧ z = .held) ∨ c ∈ uses z := by
    intro z c hc
    by_cases hz : z = .held
    · subst hz
      rw [Function.update_self] at hc
      exact (List.mem_cons.mp hc).imp_left fun heq => ⟨heq, rfl⟩
    · exact .inr (hother z hz ▸ hc)
  refine ⟨h.apart.add (y := .held) hfresh (by rw [Function.update_self]) fun z hz => by rw [hother z hz], fun u c hc => ?_,
    fun c hc => ?_, ⟨k + 1, ?_⟩, hroom, fun z p hp => ?_, fun u c hc => ?_⟩
  · rcases hmem u c hc with ⟨rfl, -⟩ | hc
    · exact hblock
    · exact (h.isBlock u c hc).mono (Nat.le_add_right _ _)
  · by_cases heq : c = db.eofPtr
    · exact ⟨.held, by rw [Function.update_self, heq]; exact List.mem_cons_self⟩
    · obtain ⟨j, hj⟩ := hc.aligned
      have hinside := hc.inside
      have hold : IsBlock db.eofPtr c := by
        refine ⟨⟨j, hj⟩, ?_⟩
        dsimp only at hinside
        unfold BLOCKSIZE at *
        omega
      obtain ⟨u, hu⟩ := h.used c hold
      by_cases hheld : u = .held
      · exact ⟨.held, by rw [Function.update_self]; exact List.mem_cons_of_mem _ (hheld ▸ hu)⟩
      · exact ⟨u, hother u hheld ▸ hu⟩
  · change db.eofPtr + BLOCKSIZE = _
    rw [hk, Nat.add_mul, Nat.one_mul, Nat.add_assoc]
  · have hz : z ≠ .held := by rintro rfl; exact absurd hp (by simp [Database.head])
    have hp' : db.head z = some p := by cases z <;> exact hp
    rw [hother z hz]
    exact Chained.frame (h.chained z p hp') (hfresh z) fun c hc => Function.update_of_ne hc ..
  · change Fits u (Function.update db.disk db.eofPtr Block.zero c)
    rcases hmem u c hc with ⟨rfl, rfl⟩ | hc
    · trivial
    · have hne : c ≠ db.eofPtr := fun heq => hfresh u (heq ▸ hc)
      rw [Function.update_of_ne hne]
      exact h.fits u c hc

/-- What `AllocBlock` does: a cleared block is held that was held by nobody, or the database cannot grow. -/
structure BlockAlloced (db : Database) (uses : Use → List ℕ) (db' : Database) (uses' : Use → List ℕ) (a : ℕ) : Prop where
  listed : Listed db' uses'
  held : uses' .held = a :: uses .held
  avail : ∀ type, uses' (.avail type) = uses (.avail type)
  full : ∀ type, uses' (.full type) = uses (.full type)
  freePtrs : db'.freePtrs = db.freePtrs
  disk : ∀ c, c ≠ a → db'.disk c = db.disk c
  fresh : ∀ u, u ≠ .free → a ∉ uses u

theorem AllocBlock_spec (h : Listed db uses) :
    AllocBlock db = .error .ubik ∨ ∃ db' a uses', AllocBlock db = .ok (db', a) ∧ BlockAlloced db uses db' uses' a := by
  have hchain := h.chained .free db.freePtr rfl
  unfold AllocBlock
  by_cases hptr : db.freePtr = 0
  · rw [if_pos hptr]
    by_cases hroom : db.eofPtr + BLOCKSIZE ≤ fileLimit
    · obtain ⟨k, hk⟩ := h.aligned
      have hwrite := dbwrite_ok { db with eofPtr := db.eofPtr + BLOCKSIZE } (a := db.eofPtr)
        ⟨⟨k, hk⟩, Nat.le_refl _⟩ hroom Block.zero
      rw [hwrite]
      refine .inr ⟨_, _, _, rfl, h.extend hroom, Function.update_self .., fun _ => rfl, fun _ => rfl, rfl,
        fun c hc => Function.update_of_ne hc .., fun u _ hmem => ?_⟩
      have hinside := (h.isBlock u _ hmem).inside
      unfold BLOCKSIZE at hinside
      omega
    · have hin : ¬(db.eofPtr < sizeof_dbHeader ∨ db.eofPtr + BLOCKSIZE ≤ db.eofPtr) := by
        have hle := h.header_le
        unfold BLOCKSIZE
        omega
      have hwrite : dbwrite { db with eofPtr := db.eofPtr + BLOCKSIZE } db.eofPtr Block.zero = .error .ubik := by
        rw [dbwrite]
        exact (if_neg hin).trans (if_pos (Nat.lt_of_not_le hroom))
      rw [hwrite]
      exact .inl rfl
  · rw [if_neg hptr]
    cases hfree : uses .free with
    | nil =>
      rw [hfree] at hchain
      exact absurd hchain hptr
    | cons b rest =>
      rw [hfree] at hchain
      obtain ⟨hpb, -, hrest⟩ := hchain
      have hmem : b ∈ uses .free := hfree ▸ List.mem_cons_self
      have hblock := h.isBlock .free b hmem
      have hgone : b ∉ rest := (List.nodup_cons.mp (hfree ▸ h.apart.nodup .free)).1
      have hwrite := dbwrite_ok { db with freePtr := (db.disk b).h.next } (a := b) hblock h.limit Block.zero
      rw [hpb, h.dbread_ok hmem]
      simp only [Stop.ok_bind]
      rw [hwrite]
      have herase : (uses .free).erase b = rest := by rw [hfree, List.erase_cons_head]
      refine .inr ⟨_, b, moved uses .free .held b, rfl, ?_, moved_to, fun _ => rfl, fun _ => rfl, rfl,
        fun c hc => Function.update_of_ne hc .., fun u hu hb => hu (h.apart.unique hb hmem)⟩
      refine h.move (a := b) (x := .free) (y := .held) (by decide) ?_ ?_ (fun z => moved_other) rfl
        (fun c hc => Function.update_of_ne hc ..) trivial (fun z hzx _ => ?_) (fun p hp => ?_)
        (fun p hp => absurd hp (by simp [Database.head]))
      · rw [moved_from (by decide), herase, hfree]
      · rw [moved_to]
      · cases z with
        | free => exact absurd rfl hzx
        | _ => rfl
      · obtain rfl : (db.disk b).h.next = p := Option.some.inj hp
        rw [moved_from (by decide), herase]
        exact Chained.frame hrest hgone fun c hc => Function.update_of_ne hc ..

section FreeBlock

/-- The database after `FreeBlock`. -/
def freed (db : Database) (a : ℕ) : Database :=
  { db with freePtr := a, disk := Function.update db.disk a { db.disk a with h := ⟨.free_BLOCK, 0, db.freePtr⟩ } }

theorem FreeBlock_eq (db : Database) (hblock : IsBlock db.eofPtr a) (hlimit : db.eofPtr ≤ fileLimit) : FreeBlock db a = .ok (freed db a) := by
  rw [FreeBlock, if_neg (not_not_intro hblock.blockBase.symm)]
  exact dbwrite_ok { db with freePtr := a } hblock hlimit _

theorem freed_chained (db : Database) {cells : List ℕ} (hne : a ≠ 0) (ha : a ∉ cells) (h : Chained db.next 0 db.freePtr cells) :
    Chained (freed db a).next 0 a (a :: cells) := by
  refine ⟨rfl, hne, ?_⟩
  have hnext : (freed db a).next a = db.freePtr := by simp [Database.next, freed]
  rw [hnext]
  exact Chained.frame h ha fun c hc => Function.update_of_ne hc ..

theorem Listed.freeHeld (h : Listed db uses) (ha : a ∈ uses .held) : Listed (freed db a) (moved uses .held .free a) := by
  have hnot : a ∉ uses .free := fun hmem => absurd (h.apart.unique ha hmem) (by decide)
  refine h.move (a := a) (x := .held) (y := .free) (by decide) ?_ ?_ (fun z => moved_other) rfl
    (fun c hc => Function.update_of_ne hc ..) ?_ (fun z _ hzy => ?_) (fun p hp => absurd hp (by simp [Database.head])) fun p hp => ?_
  · rw [moved_from (by decide)]
    exact List.perm_cons_erase ha
  · rw [moved_to]
  · simp [Fits, freed]
  · cases z with
    | free => exact absurd rfl hzy
    | _ => rfl
  · obtain rfl : a = p := Option.some.inj hp
    rw [moved_to]
    exact freed_chained db (h.isBlock .held a ha).ne_zero hnot (h.chained .free db.freePtr rfl)

theorem Listed.freeAvail (h : Listed db uses) {rest : List ℕ} (ha : uses (.avail type) = a :: rest) :
    Listed (freed (setFreePtr db type (db.next a)) a) (moved uses (.avail type) .free a) := by
  have hmem : a ∈ uses (.avail type) := ha ▸ List.mem_cons_self
  have hchain := h.chained (.avail type) (db.freePtrs type) rfl
  rw [ha] at hchain
  have hgone : a ∉ rest := (List.nodup_cons.mp (ha ▸ h.apart.nodup (.avail type))).1
  have hnot : a ∉ uses .free := fun hfree => absurd (h.apart.unique hmem hfree) (by simp)
  have herase : (uses (.avail type)).erase a = rest := by rw [ha, List.erase_cons_head]
  refine h.move (a := a) (x := .avail type) (y := .free) (by simp) ?_ ?_ (fun z => moved_other) rfl
    (fun c hc => Function.update_of_ne hc ..) ?_ (fun z hzx hzy => ?_) (fun p hp => ?_) fun p hp => ?_
  · rw [moved_from (by simp), herase, ha]
  · rw [moved_to]
  · simp [Fits, freed]
  · cases z with
    | free => exact absurd rfl hzy
    | avail other =>
      have hother : other ≠ type := fun heq => hzx (congrArg Use.avail heq)
      exact congrArg some (Function.update_of_ne hother ..)
    | _ => rfl
  · obtain rfl : db.next a = p := by
      have hhead := Option.some.inj hp
      rw [← hhead]
      exact (Function.update_self type (db.next a) db.freePtrs).symm
    rw [moved_from (by simp), herase]
    exact Chained.frame hchain.2.2 hgone fun c hc => Function.update_of_ne hc ..
  · obtain rfl : a = p := Option.some.inj hp
    rw [moved_to]
    refine freed_chained (setFreePtr db type (db.next a)) (h.isBlock _ a hmem).ne_zero hnot ?_
    exact h.chained .free db.freePtr rfl

end FreeBlock

end dce.bak.alloc
