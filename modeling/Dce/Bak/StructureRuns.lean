import Dce.Bak.StructureSlots

open lib

namespace dce.bak.alloc

section Names

variable {order : ByteOrder}

theorem networkBytes_ne_zero {v : u_long} (hv : v ≠ 0) : networkBytes v ≠ zeroWord := by
  intro hzero
  refine hv ?_
  rw [← ofNetworkBytes_networkBytes v, hzero]
  rfl

theorem strcpy_eq_zero_iff {size : ℕ} (name : Name size) : strcpy order name.val = zeroWord ↔ order = .little ∧ name.val = [] := by
  obtain ⟨octets, hnul, hlen⟩ := name
  cases octets with
  | nil =>
    have hbig : strcpy .big [] ≠ zeroWord := by decide
    have hlittle : strcpy .little [] = zeroWord := by decide
    cases order with
    | big => exact iff_of_false hbig fun hnil => absurd hnil.1 (by decide)
    | little => exact iff_of_true hlittle ⟨rfl, rfl⟩
  | cons c octets =>
    have hc : c ≠ 0 := fun heq => hnul (heq ▸ List.mem_cons_self)
    refine iff_of_false (fun hzero => hc ?_) fun hnil => List.cons_ne_nil c octets hnil.2
    exact (List.cons.inj hzero).1

theorem firstWord_eq_zero_iff (record : Record) : record.firstWord order = zeroWord ↔ order = .little ∧ record.unnamed = true := by
  cases record with
  | volFragment vol => simp [Record.firstWord, Record.unnamed, networkBytes_ne_zero vol.property]
  | volInfo name => simp [Record.firstWord, Record.unnamed, strcpy_eq_zero_iff]
  | tape name => simp [Record.firstWord, Record.unnamed, strcpy_eq_zero_iff]
  | dump id => simp [Record.firstWord, Record.unnamed, networkBytes_ne_zero id.property]

end Names

/-- What the callers hold is what is in use. -/
structure Owned (db : Database) (held : Held) (uses : Use → List ℕ) : Prop where
  listed : Listed db uses
  blocks : held.blocks.Perm (uses .held)
  nodup : held.structs.Nodup
  structs : ∀ t sa, (t, sa) ∈ held.structs ↔ Live db uses t sa

variable {db db' : Database} {held : Held} {uses uses' : Use → List ℕ} {a sa : ℕ} {type : StructType}

namespace Owned

variable (h : Owned db held uses)

include h

theorem alloc_block (halloc : BlockAlloced db uses db' uses' a) : Owned db' { held with blocks := a :: held.blocks } uses' := by
  refine ⟨halloc.listed, ?_, h.nodup, fun t sa => (h.structs t sa).trans (Live.congr (fun t b => ?_) (fun t b hin j _ => ?_) t sa).symm⟩
  · rw [halloc.held]
    exact h.blocks.cons a
  · rw [InUse, InUse, halloc.avail, halloc.full]
  · have hne : b ≠ a := by
      rintro rfl
      exact hin.elim (halloc.fresh _ (by simp)) (halloc.fresh _ (by simp))
    rw [halloc.disk b hne]

theorem not_inUse (ha : a ∈ held.blocks) {t : StructType} {b : ℕ} (hin : InUse uses t b) : b ≠ a := by
  rintro rfl
  have hmem := h.blocks.mem_iff.mp ha
  exact hin.elim (fun hin => absurd (h.listed.apart.unique hin hmem) (by simp))
    fun hin => absurd (h.listed.apart.unique hin hmem) (by simp)

theorem free_block (ha : a ∈ held.blocks) :
    Owned (freed db a) { held with blocks := held.blocks.erase a } (moved uses .held .free a) := by
  have hmem := h.blocks.mem_iff.mp ha
  refine ⟨h.listed.freeHeld hmem, ?_, h.nodup,
    fun t sa => (h.structs t sa).trans (Live.congr (fun t b => ?_) (fun t b hin j _ => ?_) t sa).symm⟩
  · rw [moved_from (by decide)]
    exact h.blocks.erase a
  · rw [InUse, InUse, moved_other (by simp) (by simp), moved_other (by simp) (by simp)]
  · change (Function.update db.disk a _ b).word j = _
    rw [Function.update_of_ne (h.not_inUse ha hin)]

theorem write_block (ha : a ∈ held.blocks) (b : Block) : Owned { db with disk := Function.update db.disk a b } held uses := by
  have hmem := h.blocks.mem_iff.mp ha
  refine ⟨h.listed.keep hmem trivial fun ⟨p, hp⟩ => absurd hp (by simp [Database.head]), h.blocks, h.nodup,
    fun t sa => (h.structs t sa).trans (Live.congr (fun _ _ => Iff.rfl) (fun t c hin j _ => ?_) t sa).symm⟩
  change (Function.update db.disk a b c).word j = _
  rw [Function.update_of_ne (h.not_inUse ha hin)]

theorem alloc_structure (halloc : Alloced db uses type db' uses' sa) :
    Owned db' { held with structs := (type, sa) :: held.structs } uses' := by
  refine ⟨halloc.listed, halloc.held ▸ h.blocks, List.nodup_cons.mpr ⟨fun hmem => halloc.fresh ((h.structs _ _).mp hmem), h.nodup⟩,
    fun t sa' => ?_⟩
  rw [halloc.live, ← h.structs, List.mem_cons, Prod.mk.injEq]

theorem free_structure (hfree : StructFreed db uses type sa db' uses') :
    Owned db' { held with structs := held.structs.erase (type, sa) } uses' := by
  refine ⟨hfree.listed, hfree.held ▸ h.blocks, h.nodup.erase _, fun t sa' => ?_⟩
  rw [hfree.live, ← h.structs, h.nodup.mem_erase_iff, ne_eq, Prod.mk.injEq]

theorem write (hmem : (type, sa) ∈ held.structs) {word : Octets} (hword : word ≠ zeroWord) :
    Owned (State.put db type sa word) held uses := by
  obtain ⟨hlisted, hlive⟩ := put_spec h.listed ((h.structs _ _).mp hmem) hword
  exact ⟨hlisted, h.blocks, h.nodup, fun t sa' => (h.structs t sa').trans (hlive t sa').symm⟩

end Owned

namespace State

variable {s s' : State} {order : ByteOrder} {event : Event}

/-- The database and what it was when the transaction began are in order, and the server runs. -/
structure Good (s : State) : Prop where
  now : ∃ uses, Owned s.db s.held uses
  saved : ∃ uses, Owned s.saved.1 s.saved.2 uses
  running : s.panicked = false

theorem Good.abort (h : s.Good) : s.abort.Good := ⟨h.saved, h.saved, h.running⟩

theorem Good.after {α : Type} {result : Except Stop α} {next : α → Database × Held} (h : s.Good)
    (hresult : result = .error .ubik ∨ ∃ x, result = .ok x ∧ ∃ uses, Owned (next x).1 (next x).2 uses) :
    (s.after result next).Good := by
  rcases hresult with rfl | ⟨x, rfl, howned⟩
  · exact h.abort
  · exact ⟨howned, h.saved, h.running⟩

/-- A structure without a name is written on a host that keeps the lowest octet first. -/
def writesZero (order : ByteOrder) : Event → Bool
  | .write _ record => order = .little ∧ record.unnamed = true
  | _ => false

theorem Good.step (h : s.Good) (hnamed : writesZero order event = false) (hstep : s.step order event = some s') : s'.Good := by
  obtain ⟨uses, howned⟩ := h.now
  cases event with
  | AllocBlock =>
    obtain rfl := Option.some.inj hstep
    refine h.after ?_
    rcases AllocBlock_spec howned.listed with hfull | ⟨db', a, uses', hok, halloc⟩
    · exact .inl hfull
    · exact .inr ⟨_, hok, uses', howned.alloc_block halloc⟩
  | FreeBlock a =>
    by_cases ha : a ∈ s.held.blocks
    · obtain rfl : s.after (alloc.FreeBlock s.db a) (fun db => (db, { s.held with blocks := s.held.blocks.erase a })) = s' := by
        simpa [State.step, ha] using hstep
      have hblock := howned.listed.isBlock .held a (howned.blocks.mem_iff.mp ha)
      exact h.after (.inr ⟨_, FreeBlock_eq _ hblock howned.listed.limit, _, howned.free_block ha⟩)
    · simp [State.step, ha] at hstep
  | writeBlock a b =>
    by_cases ha : a ∈ s.held.blocks
    · obtain rfl : { s with db := { s.db with disk := Function.update s.db.disk a b } } = s' := by
        simpa [State.step, ha] using hstep
      exact ⟨⟨uses, howned.write_block ha b⟩, h.saved, h.running⟩
    · simp [State.step, ha] at hstep
  | AllocStructure type =>
    obtain rfl := Option.some.inj hstep
    refine h.after ?_
    rcases AllocStructure_spec order type howned.listed with hfull | ⟨db', sa, uses', hok, halloc⟩
    · exact .inl hfull
    · exact .inr ⟨_, hok, uses', howned.alloc_structure halloc⟩
  | FreeStructure type sa =>
    by_cases hmem : (type, sa) ∈ s.held.structs
    · obtain rfl : s.after (alloc.FreeStructure s.db type sa)
          (fun db => (db, { s.held with structs := s.held.structs.erase (type, sa) })) = s' := by
        simpa [State.step, hmem] using hstep
      obtain ⟨db', uses', hok, hfree⟩ := FreeStructure_spec howned.listed ((howned.structs _ _).mp hmem)
      exact h.after (.inr ⟨_, hok, uses', howned.free_structure hfree⟩)
    · simp [State.step, hmem] at hstep
  | write sa record =>
    by_cases hmem : (record.type, sa) ∈ s.held.structs
    · obtain rfl : { s with db := put s.db record.type sa (record.firstWord order) } = s' := by
        simpa [State.step, hmem] using hstep
      have hword : record.firstWord order ≠ zeroWord := fun hzero =>
        absurd (firstWord_eq_zero_iff record |>.mp hzero) (by simpa [writesZero] using hnamed)
      exact ⟨⟨uses, howned.write hmem hword⟩, h.saved, h.running⟩
    · simp [State.step, hmem] at hstep
  | endTrans =>
    obtain rfl := Option.some.inj hstep
    exact ⟨h.now, h.now, h.running⟩
  | abortTrans =>
    obtain rfl := Option.some.inj hstep
    exact h.abort

end State

section Claim

def Held.extents (held : Held) : List (ℕ × ℕ) :=
  held.blocks.map (fun a => (a, BLOCKSIZE)) ++ held.structs.map fun s => (s.2, sizeEntries s.1)

def Disjoint (x y : ℕ × ℕ) : Prop := x.1 + x.2 ≤ y.1 ∨ y.1 + y.2 ≤ x.1

/-- A block that holds structures of a type: nobody holds it as a block. -/
def StructBlock (s : State) (type : StructType) (a : ℕ) : Prop :=
  IsBlock s.db.eofPtr a ∧ a ∉ s.held.blocks ∧ (s.db.disk a).h.type = .structure_BLOCK type

/-- The allocator is sound: live storage is apart, the lists are apart and hold the blocks that they should, the counts are
right, and the server runs. -/
structure Sound (s : State) : Prop where
  apart : s.held.extents.Pairwise Disjoint
  lists : ∃ (free : List ℕ) (avail : StructType → List ℕ), Chained s.db.next 0 s.db.freePtr free ∧
    (∀ type, Chained s.db.next 0 (s.db.freePtrs type) (avail type)) ∧ Apart (fun list : Option StructType => list.elim free avail) ∧
    ∀ type a, a ∈ avail type ↔ StructBlock s type a ∧ 1 ≤ (s.db.disk a).h.nFree
  counted : ∀ type a, StructBlock s type a → (s.db.disk a).h.nFree = (s.db.disk a).zeros type
  running : s.panicked = false

variable {s : State}

theorem IsBlock.disjoint {eofPtr b : ℕ} (ha : IsBlock eofPtr a) (hb : IsBlock eofPtr b) (hne : a ≠ b) :
    a + BLOCKSIZE ≤ b ∨ b + BLOCKSIZE ≤ a := by
  obtain ⟨j, rfl⟩ := ha.aligned
  obtain ⟨k, rfl⟩ := hb.aligned
  have hjk : j ≠ k := fun heq => hne (by rw [heq])
  unfold BLOCKSIZE
  omega

theorem slots_disjoint {eofPtr b i j : ℕ} {t : StructType} (ha : IsBlock eofPtr a) (hi : i < nEntries type)
    (hb : IsBlock eofPtr b) (hj : j < nEntries t) (hne : a ≠ b ∨ type = t ∧ i ≠ j) :
    Disjoint (slotAddr type a i, sizeEntries type) (slotAddr t b j, sizeEntries t) := by
  have hin := slot_inside hi
  have hjn := slot_inside hj
  rw [Nat.add_mul, Nat.one_mul] at hin hjn
  unfold Disjoint slotAddr
  dsimp only
  by_cases hab : a = b
  · subst hab
    obtain ⟨rfl, hij⟩ := hne.resolve_left (not_not_intro rfl)
    rcases Nat.lt_or_gt_of_ne hij with hlt | hgt
    · have hmul := Nat.mul_le_mul_right (sizeEntries type) hlt
      rw [Nat.succ_mul] at hmul
      omega
    · have hmul := Nat.mul_le_mul_right (sizeEntries type) hgt
      rw [Nat.succ_mul] at hmul
      omega
  · rcases IsBlock.disjoint ha hb hab with hle | hle <;> omega

theorem block_disjoint {eofPtr b j : ℕ} {t : StructType} (ha : IsBlock eofPtr a) (hb : IsBlock eofPtr b)
    (hj : j < nEntries t) (hne : a ≠ b) : Disjoint (a, BLOCKSIZE) (slotAddr t b j, sizeEntries t) := by
  have hjn := slot_inside hj
  rw [Nat.add_mul, Nat.one_mul] at hjn
  unfold Disjoint slotAddr
  dsimp only
  rcases IsBlock.disjoint ha hb hne with hle | hle <;> omega

theorem Owned.extents_disjoint (h : Owned db held uses) : held.extents.Pairwise Disjoint := by
  have hblock : ∀ a ∈ held.blocks, IsBlock db.eofPtr a := fun a ha => h.listed.isBlock .held a (h.blocks.mem_iff.mp ha)
  refine List.pairwise_append.mpr ⟨List.pairwise_map.mpr ?_, List.pairwise_map.mpr ?_, ?_⟩
  · have hnodup : held.blocks.Nodup := h.blocks.nodup_iff.mpr (h.listed.apart.nodup .held)
    exact hnodup.pairwise_of_forall_ne fun a ha b hb hne => IsBlock.disjoint (hblock a ha) (hblock b hb) hne
  · refine h.nodup.pairwise_of_forall_ne fun x hx y hy hne => ?_
    obtain ⟨t, sa⟩ := x
    obtain ⟨t', sa'⟩ := y
    obtain ⟨a, i, hin, hi, rfl, -⟩ := (h.structs t sa).mp hx
    obtain ⟨b, j, hin', hj, rfl, -⟩ := (h.structs t' sa').mp hy
    refine slots_disjoint (hin.isBlock h.listed) hi (hin'.isBlock h.listed) hj ?_
    by_cases hab : a = b
    · subst hab
      obtain rfl := InUse.unique h.listed hin' hin
      exact .inr ⟨rfl, fun hij => hne (by rw [hij])⟩
    · exact .inl hab
  · intro x hx y hy
    obtain ⟨a, ha, rfl⟩ := List.mem_map.mp hx
    obtain ⟨⟨t, sa⟩, hs, rfl⟩ := List.mem_map.mp hy
    obtain ⟨b, j, hin, hj, rfl, -⟩ := (h.structs t sa).mp hs
    exact block_disjoint (hblock a ha) (hin.isBlock h.listed) hj (h.not_inUse ha hin).symm

theorem Owned.structBlock_iff (h : Owned s.db s.held uses) : StructBlock s type a ↔ InUse uses type a := by
  constructor
  · rintro ⟨hblock, hheld, htype⟩
    obtain ⟨u, hu⟩ := h.listed.used a hblock
    have hfits := h.listed.fits u a hu
    cases u with
    | free => exact absurd (htype.symm.trans hfits) (by simp)
    | held => exact absurd (h.blocks.mem_iff.mpr hu) hheld
    | avail t => exact BlockType.structure_BLOCK.inj (htype.symm.trans hfits.1.typed) ▸ .inl hu
    | full t => exact BlockType.structure_BLOCK.inj (htype.symm.trans hfits.1.typed) ▸ .inr hu
  · intro hin
    exact ⟨hin.isBlock h.listed, fun hmem => h.not_inUse hmem hin rfl, (hin.counted h.listed).typed⟩

theorem State.Good.sound (h : s.Good) : Sound s := by
  obtain ⟨uses, howned⟩ := h.now
  have hlisted := howned.listed
  refine ⟨howned.extents_disjoint, ⟨uses .free, fun type => uses (.avail type), hlisted.chained .free _ rfl,
    fun type => hlisted.chained (.avail type) _ rfl, ⟨fun list => ?_, fun {b x y} hx hy => ?_⟩, fun type a => ?_⟩,
    fun type a hblock => ((howned.structBlock_iff.mp hblock).counted hlisted).nFree, h.running⟩
  · cases list with
    | none => exact hlisted.apart.nodup .free
    | some type => exact hlisted.apart.nodup (.avail type)
  · cases x <;> cases y <;> have heq := hlisted.apart.unique hx hy
    · rfl
    · exact absurd heq (by simp)
    · exact absurd heq (by simp)
    · exact congrArg some (Use.avail.inj heq)
  · rw [howned.structBlock_iff]
    constructor
    · exact fun hmem => ⟨.inl hmem, (hlisted.fits _ a hmem).2⟩
    · rintro ⟨hmem | hmem, hsome⟩
      · exact hmem
      · have hnone := (hlisted.fits _ a hmem).2
        omega

theorem Owned.new : Owned Database.new ⟨[], []⟩ fun _ => [] := by
  have hnone : ∀ a, ¬ IsBlock sizeof_dbHeader a := by
    intro a ha
    have hle := ha.le
    have hinside := ha.inside
    unfold BLOCKSIZE at hinside
    omega
  refine ⟨⟨⟨fun _ => List.nodup_nil, fun hx => absurd hx List.not_mem_nil⟩, fun _ _ ha => absurd ha List.not_mem_nil,
    fun a ha => absurd ha (hnone a), ⟨0, rfl⟩, by decide, fun u p hp => ?_, fun _ _ ha => absurd ha List.not_mem_nil⟩, .nil,
    List.nodup_nil, fun t sa => ?_⟩
  · cases u with
    | free => exact (Option.some.inj hp).symm
    | avail type => exact (Option.some.inj hp).symm
    | held => exact absurd hp (by simp [Database.head])
    | full type => exact absurd hp (by simp [Database.head])
  · refine iff_of_false List.not_mem_nil ?_
    rintro ⟨a, i, hin, -⟩
    exact hin.elim List.not_mem_nil List.not_mem_nil

/-- In every run in which no structure without a name is written on a host that keeps the lowest octet first, the allocator is
sound. -/
theorem allocator_sound (order : ByteOrder) {s : State}
    (hreach : ((allocator order).restrict fun _ event => State.writesZero order event = false).Reachable s) : Sound s := by
  refine State.Good.sound (hreach.invariant (P := State.Good) ?_ ?_)
  · rintro s rfl
    exact ⟨⟨_, Owned.new⟩, ⟨_, Owned.new⟩, rfl⟩
  · intro s event s' hgood hstep
    obtain ⟨hnamed, hstep⟩ := System.restrict_step hstep
    have hrun : s.step order event = some s' := by
      rw [← hstep]
      exact (if_neg (by simp [hgood.running])).symm
    exact hgood.step hnamed hrun

/-- Two tapes with names. -/
theorem allocator_sound_twoTapes : ∃ s : State, s.held.structs = [(.tape, 1280), (.tape, 944)] ∧ Sound s := by
  obtain ⟨s, hreach, hheld⟩ := System.exists_reachable_of_exec
    ((allocator .little).restrict fun _ event => State.writesZero .little event = false)
    (s := ⟨Database.new, ⟨[], []⟩, (Database.new, ⟨[], []⟩), false⟩)
    [.AllocStructure .tape, .write 944 (.tape ⟨[65], by decide⟩), .AllocStructure .tape]
    (P := fun s => s.held.structs = [(.tape, 1280), (.tape, 944)]) rfl (by decide +kernel)
  exact ⟨s, of_decide_eq_true hheld, allocator_sound .little hreach⟩

/-- A tape without a name is written, and its storage is had again. -/
theorem unnamed_tape_had_twice : ¬ ∀ (order : ByteOrder) (s : State), (allocator order).Reachable s → Sound s := by
  intro hall
  obtain ⟨s, hreach, hheld⟩ := System.exists_reachable_of_exec (allocator .little)
    (s := ⟨Database.new, ⟨[], []⟩, (Database.new, ⟨[], []⟩), false⟩)
    [.AllocStructure .tape, .write 944 (.tape ⟨[], by decide⟩), .AllocStructure .tape]
    (P := fun s => s.held.structs = [(.tape, 944), (.tape, 944)] ∧ s.held.blocks = []) rfl (by decide +kernel)
  obtain ⟨hstructs, hblocks⟩ := of_decide_eq_true hheld
  have hapart := (hall .little s hreach).apart
  rw [Held.extents, hstructs, hblocks] at hapart
  have hdisjoint := (List.pairwise_cons.mp hapart).1 (944, 336) (List.mem_singleton.mpr rfl)
  unfold Disjoint at hdisjoint
  dsimp only [sizeEntries] at hdisjoint
  omega

end Claim

end dce.bak.alloc
