import Dce.Epi.AllocationPool
import Mathlib.Tactic.LinearCombination

open lib Finset

namespace dce.episode.bitmap

def fcounts : List ℕ :=
  [8, 7, 7, 6, 7, 6, 6, 5, 7, 6, 6, 5, 6, 5, 5, 4, 7, 6, 6, 5, 6, 5, 5, 4, 6, 5, 5, 4, 5, 4, 4, 3, 7, 6, 6, 5, 6, 5, 5, 4,
    6, 5, 5, 4, 5, 4, 4, 3, 6, 5, 5, 4, 5, 4, 4, 3, 5, 4, 4, 3, 4, 3, 3, 2, 7, 6, 6, 5, 6, 5, 5, 4, 6, 5, 5, 4, 5, 4, 4, 3,
    6, 5, 5, 4, 5, 4, 4, 3, 5, 4, 4, 3, 4, 3, 3, 2, 6, 5, 5, 4, 5, 4, 4, 3, 5, 4, 4, 3, 4, 3, 3, 2, 5, 4, 4, 3, 4, 3, 3, 2,
    4, 3, 3, 2, 3, 2, 2, 1, 7, 6, 6, 5, 6, 5, 5, 4, 6, 5, 5, 4, 5, 4, 4, 3, 6, 5, 5, 4, 5, 4, 4, 3, 5, 4, 4, 3, 4, 3, 3, 2,
    6, 5, 5, 4, 5, 4, 4, 3, 5, 4, 4, 3, 4, 3, 3, 2, 5, 4, 4, 3, 4, 3, 3, 2, 4, 3, 3, 2, 3, 2, 2, 1, 6, 5, 5, 4, 5, 4, 4, 3,
    5, 4, 4, 3, 4, 3, 3, 2, 5, 4, 4, 3, 4, 3, 3, 2, 4, 3, 3, 2, 3, 2, 2, 1, 5, 4, 4, 3, 4, 3, 3, 2, 4, 3, 3, 2, 3, 2, 2, 1,
    4, 3, 3, 2, 3, 2, 2, 1, 3, 2, 2, 1, 2, 1, 1, 0]

def blockMasks (fragmentsPerBlock : ℕ) : List ℕ := if fragmentsPerBlock = 2 then [0x03, 0x0c, 0x30, 0xc0] else [0x0f, 0xf0]

/-- An entry of `bcounts`: the free blocks of a byte, and the free fragments of its other blocks. -/
def bcounts (fragmentsPerBlock b : ℕ) : ℕ :=
  let (fb, byte) := (blockMasks fragmentsPerBlock).foldl
    (fun (fb, byte) mask => if byte &&& mask = 0 then (fb + 1, byte ||| mask) else (fb, byte)) (0, b)
  fb <<< 4 ||| fcounts.getD byte 0

variable (page : bitmapPage) (h : allocationData)

/-- The loop over the blocks of a page that have some whole bytes each. -/
def countGroups (bytes : ℕ) : ℤ × ℤ :=
  let byte (i j : ℕ) : ℕ := (BitsArray page h (i * bytes + j)).toNat
  let groups := range ((h.bitsLength + bytes - 1) / bytes)
  (∑ i ∈ groups, if ∀ j < bytes, byte i j = 0 then 1 else 0,
    ∑ i ∈ groups, if ∀ j < bytes, byte i j = 0 then 0 else ∑ j ∈ range bytes, (fcounts.getD (byte i j) 0 : ℤ))

/-- What `InitFreeSpace` counts in a page: its free blocks, and the free fragments of the others. -/
def countPage : ℤ × ℤ :=
  match h.logFrags with
  | 0 => (∑ b ∈ range h.bitsLength, (fcounts.getD (page.logged b).toNat 0 : ℤ), 0)
  | 1 | 2 =>
    (∑ b ∈ range h.bitsLength, ((bcounts h.fragmentsPerBlock (BitsArray page h b).toNat >>> 4 : ℕ) : ℤ),
      ∑ b ∈ range h.bitsLength, ((bcounts h.fragmentsPerBlock (BitsArray page h b).toNat &&& 0xf : ℕ) : ℤ))
  | logBytes + 3 => countGroups page h (1 <<< logBytes)

instance : Decidable (BITMAP_PAGE_OK page h) := by
  unfold BITMAP_PAGE_OK BITMAP_PAGE_MAGIC_OK BITMAP_PAGE_LENGTH_OK
  infer_instance

def bitmapPages : ℕ := (h.length + h.blocksPerPage - 1) / h.blocksPerPage

/-- The counts of all pages of a bitmap; nothing is `EPI_E_NOTABITMAP`. -/
def InitFreeSpace (bitmap : ℕ → bitmapPage) : Option allocationData :=
  if ∀ p < bitmapPages h, BITMAP_PAGE_OK (bitmap p) h then
    some { h with
      blocksFree := ∑ p ∈ range (bitmapPages h), (countPage (bitmap p) h).1
      fragsFree := ∑ p ∈ range (bitmapPages h), (countPage (bitmap p) h).2
      blocksFreeValid := true }
  else none

/-! The count of a page -/

theorem fcounts_eq : ∀ byte < 256, ∑ j ∈ range 8, (if Clear byte j then (1 : ℤ) else 0) = fcounts.getD byte 0 := by
  decide +kernel

theorem fcounts_one : ∀ byte < 256, wholeBlocks (Clear byte) 1 8 = fcounts.getD byte 0 ∧ partPlaces (Clear byte) 1 8 = 0 := by
  decide +kernel

theorem bcounts_two : ∀ byte < 256, wholeBlocks (Clear byte) 2 4 = (bcounts 2 byte >>> 4 : ℕ) ∧
    partPlaces (Clear byte) 2 4 = (bcounts 2 byte &&& 0xf : ℕ) := by
  decide +kernel

theorem bcounts_four : ∀ byte < 256, wholeBlocks (Clear byte) 4 2 = (bcounts 4 byte >>> 4 : ℕ) ∧
    partPlaces (Clear byte) 4 2 = (bcounts 4 byte &&& 0xf : ℕ) := by
  decide +kernel

variable {page h}

theorem byte_lt (i : ℕ) : (BitsArray page h i).toNat < 256 := (BitsArray page h i).isLt

theorem agree_byte {m c : ℕ} (hm : c * m = 8) (i : ℕ) {b : ℕ} (hb : b < c) :
    AgreeOn (fun k => fragFree page h (i * (c * m) + k)) (Clear (BitsArray page h i).toNat) m b := by
  intro j hj
  have hle := Nat.mul_le_mul_right m (show b + 1 ≤ c from hb)
  rw [Nat.add_mul, Nat.one_mul] at hle
  rw [hm]
  exact fragFree_byte page h i (by omega)

section

variable (hh : h.Formatted)

include hh

theorem page_bytes {m c : ℕ} (hm : c * m = 8) (hsize : h.fragmentsPerBlock = m) :
    pageBlocks page h = ∑ i ∈ range h.bitsLength, wholeBlocks (Clear (BitsArray page h i).toNat) m c ∧
      pageFrags page h = ∑ i ∈ range h.bitsLength, partPlaces (Clear (BitsArray page h i).toNat) m c := by
  have hblocks : h.blocksPerPage = h.bitsLength * c := by
    have hbits := hh.bits
    rw [hsize, ← hm, ← Nat.mul_assoc] at hbits
    exact (Nat.eq_of_mul_eq_mul_right (hsize ▸ hh.pos) hbits).symm
  rw [pageBlocks, pageFrags, hsize, hblocks, wholeBlocks_groups, partPlaces_groups]
  exact ⟨sum_congr rfl fun i _ => wholeBlocks_congr fun b hb => agree_byte hm i hb,
    sum_congr rfl fun i _ => partPlaces_congr fun b hb => agree_byte hm i hb⟩

omit hh in
theorem run_bytes {bytes : ℕ} (i : ℕ) : Run (fragFree page h) (i * (bytes * 8)) (bytes * 8) ↔
    ∀ j < bytes, (BitsArray page h (i * bytes + j)).toNat = 0 := by
  have hplace (j k : ℕ) : i * (bytes * 8) + (j * 8 + k) = (i * bytes + j) * 8 + k := by ring
  constructor
  · intro hrun j hj
    refine (byte_eq_zero_iff (byte_lt _)).mpr fun k hk => ?_
    have hfree := hrun (j * 8 + k) (by omega)
    rwa [hplace, fragFree_byte _ _ _ hk, ← Nat.zero_add k] at hfree
  · intro hzero k hk
    have hbyte := (byte_eq_zero_iff (byte_lt _)).mp (hzero (k / 8) (by omega)) (k % 8) (by omega)
    rw [Nat.zero_add, ← fragFree_byte _ _ _ (by omega), ← hplace, Nat.div_add_mod'] at hbyte
    exact hbyte

theorem countGroups_eq {bytes : ℕ} (hsize : h.fragmentsPerBlock = bytes * 8) :
    countGroups page h bytes = (pageBlocks page h, pageFrags page h) := by
  have hpos : 0 < bytes := by
    have hpos := hh.pos
    omega
  have hgroups : (h.bitsLength + bytes - 1) / bytes = h.blocksPerPage := by
    have hbits := hh.bits
    rw [hsize, ← Nat.mul_assoc] at hbits
    rw [Nat.eq_of_mul_eq_mul_right (by decide) hbits, Nat.add_sub_assoc hpos, Nat.mul_comm, Nat.mul_add_div hpos,
      Nat.div_eq_of_lt (by omega), Nat.add_zero]
  rw [countGroups]
  dsimp only
  rw [hgroups, pageBlocks, pageFrags, hsize]
  refine congrArg₂ Prod.mk (sum_congr rfl fun i _ => if_congr (run_bytes i).symm rfl rfl) (sum_congr rfl fun i _ => ?_)
  refine if_congr (run_bytes i).symm rfl ?_
  rw [freeIn, sum_groups]
  refine sum_congr rfl fun j _ => ?_
  rw [← fcounts_eq _ (byte_lt _)]
  refine sum_congr rfl fun k hk => ?_
  refine if_congr ?_ rfl rfl
  rw [← fragFree_byte page h _ (mem_range.mp hk)]
  exact Iff.of_eq (congrArg (fragFree page h) (by ring))

theorem countPage_eq : countPage page h = (pageBlocks page h, pageFrags page h) := by
  have hlog := hh.log_le
  have hsize := hh.size
  rw [countPage]
  match hlogFrags : h.logFrags with
  | 0 =>
    have hone : h.fragmentsPerBlock = 1 := by rw [hsize, hlogFrags, Nat.shiftLeft_zero]
    obtain ⟨hblocks, hfrags⟩ := @page_bytes page h hh 1 8 rfl hone
    have harray : BitsArray page h = page.logged := funext fun i => by
      rw [BitsArray, hh.kinds, if_pos hone, Nat.zero_add]
    rw [hblocks, hfrags, harray]
    exact congrArg₂ Prod.mk (sum_congr rfl fun i _ => ((fcounts_one _ (page.logged i).isLt).1).symm)
      (sum_eq_zero fun i _ => (fcounts_one _ (page.logged i).isLt).2).symm
  | 1 =>
    rw [hlogFrags] at hsize
    obtain ⟨hblocks, hfrags⟩ := @page_bytes page h hh 2 4 rfl hsize
    rw [hblocks, hfrags, hsize]
    exact congrArg₂ Prod.mk (sum_congr rfl fun i _ => ((bcounts_two _ (byte_lt i)).1).symm)
      (sum_congr rfl fun i _ => ((bcounts_two _ (byte_lt i)).2).symm)
  | 2 =>
    rw [hlogFrags] at hsize
    obtain ⟨hblocks, hfrags⟩ := @page_bytes page h hh 4 2 rfl hsize
    rw [hblocks, hfrags, hsize]
    exact congrArg₂ Prod.mk (sum_congr rfl fun i _ => ((bcounts_four _ (byte_lt i)).1).symm)
      (sum_congr rfl fun i _ => ((bcounts_four _ (byte_lt i)).2).symm)
  | logBytes + 3 =>
    have hbytes : h.fragmentsPerBlock = 1 <<< logBytes * 8 := by
      rw [hsize, hlogFrags, Nat.one_shiftLeft, Nat.one_shiftLeft, Nat.pow_succ, Nat.pow_succ, Nat.pow_succ]
      omega
    exact countGroups_eq hh hbytes

theorem InitFreeSpace_eq (bitmap : ℕ → bitmapPage) :
    InitFreeSpace h bitmap = if ∀ p < bitmapPages h, BITMAP_PAGE_OK (bitmap p) h then
      some { h with
        blocksFree := ∑ p ∈ range (bitmapPages h), pageBlocks (bitmap p) h
        fragsFree := ∑ p ∈ range (bitmapPages h), pageFrags (bitmap p) h
        blocksFreeValid := true }
    else none := by
  simp only [InitFreeSpace, countPage_eq hh]

end

theorem sum_update {n p : ℕ} (hp : p < n) (bitmap : ℕ → bitmapPage) (count : bitmapPage → ℤ) (page' : bitmapPage) :
    ∑ q ∈ range n, count (Function.update bitmap p page' q) = ∑ q ∈ range n, count (bitmap q) + (count page' - count (bitmap p)) := by
  have hsum := @sum_shift (fun q => count (bitmap q)) (fun q => count (Function.update bitmap p page' q)) n p 1
    (count page' - count (bitmap p)) hp fun q _ => by
      by_cases hq : q = p
      · rw [hq, Function.update_self, if_pos (by omega)]
        ring
      · rw [Function.update_of_ne hq, if_neg (by omega), add_zero]
  rw [hsum]
  ring

/-- What `InitFreeSpace` counts, the allocations and releases in a page keep up: counting all pages anew at any time changes
nothing in the handle. -/
theorem recount_agrees (h₀ : allocationData) (hh : h₀.Formatted) (bitmap : ℕ → bitmapPage) (h : allocationData)
    (hinit : InitFreeSpace h₀ bitmap = some h) (p : ℕ) (hp : p < bitmapPages h) (s : AllocationPool)
    (hs : (allocationPool ⟨bitmap p, h, []⟩).Reachable s) :
    InitFreeSpace s.h (Function.update bitmap p s.page) = some s.h := by
  rw [InitFreeSpace_eq hh] at hinit
  obtain ⟨hok, hinit⟩ := Option.ite_none_right_eq_some.mp hinit
  obtain rfl := Option.some.inj hinit
  replace hp : p < bitmapPages h₀ := hp
  have hsound := pool_sound (by
    exact ⟨⟨hh.log_le, hh.size, hh.eight, hh.bytes, hh.kinds, hh.search, hh.cross⟩, (hok p hp).2.2.2.1, rfl, rfl⟩) hs
  have hblocks := hsound.blocksFree
  have hfrags := hsound.fragsFree
  have hheader := hsound.header
  have hgeometry := hsound.geometry
  have hformatted := hsound.formatted
  clear hsound hs
  obtain ⟨page', h', held⟩ := s
  rw [SameGeometry] at hgeometry
  dsimp only at hgeometry hformatted hblocks hfrags hheader ⊢
  generalize h'.blocksFree = blocksFree at *
  generalize h'.fragsFree = fragsFree at *
  subst hgeometry
  have hblocksFree : blocksFree = ∑ q ∈ range (bitmapPages h₀), pageBlocks (Function.update bitmap p page' q) h₀ := by
    change blocksFree - pageBlocks page' h₀ = ∑ q ∈ range (bitmapPages h₀), pageBlocks (bitmap q) h₀ - pageBlocks (bitmap p) h₀ at hblocks
    rw [sum_update hp bitmap (pageBlocks · h₀)]
    linear_combination hblocks
  have hfragsFree : fragsFree = ∑ q ∈ range (bitmapPages h₀), pageFrags (Function.update bitmap p page' q) h₀ := by
    change fragsFree - pageFrags page' h₀ = ∑ q ∈ range (bitmapPages h₀), pageFrags (bitmap q) h₀ - pageFrags (bitmap p) h₀ at hfrags
    rw [sum_update hp bitmap (pageFrags · h₀)]
    linear_combination hfrags
  rw [InitFreeSpace_eq hformatted, if_pos fun q hq => ?_]
  · subst hblocksFree hfragsFree
    rfl
  · by_cases hqp : q = p
    · rw [hqp, Function.update_self, hheader]
      exact hok p hp
    · rw [Function.update_of_ne hqp]
      exact hok q hq

theorem recount_agrees_calls : ∃ s, (allocationPool usedPool).Reachable s ∧ s.held = [⟨9, 1⟩] ∧
    InitFreeSpace s.h (Function.update (fun _ => smallPage) 0 s.page) = some s.h := by
  have hinit : InitHandle smallDevice (some ⟨0, 0, 8192⟩) smallPage = some (newHandle smallDevice smallPage) := rfl
  obtain ⟨s, hs, hheld⟩ := (allocationPool usedPool).exists_reachable_of_exec poolCalls
    (P := fun s => decide (s.held = [⟨9, 1⟩])) rfl (by rfl)
  exact ⟨s, hs, of_decide_eq_true hheld, recount_agrees (newHandle smallDevice smallPage) (InitHandle_formatted hinit)
    (fun _ => smallPage) usedPool.h (by rfl) 0 (by decide) s hs⟩

end dce.episode.bitmap
