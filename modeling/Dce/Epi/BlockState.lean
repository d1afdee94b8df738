import Mathlib.Data.Nat.Bitwise
import Mathlib.Tactic.IntervalCases
import Dce.Epi.BlockAlloc
import Dce.Lib.Runs

open lib

namespace dce.episode.bitmap

/-- A bit of a byte that stands for a free fragment. -/
def Clear (byte j : ℕ) : Prop := byte.testBit j = false

instance (byte j : ℕ) : Decidable (Clear byte j) := inferInstanceAs (Decidable (_ = _))

/-- Whether a group of a byte stays in its block, where a byte has blocks of `maxSize` fragments. -/
def Within (maxSize pos size : ℕ) : Prop := pos + size ≤ 8 ∧ pos / maxSize = (pos + size - 1) / maxSize

instance (maxSize pos size : ℕ) : Decidable (Within maxSize pos size) := inferInstanceAs (Decidable (_ ∧ _))

/-- What a field of `fragSearchArray` has to say about a byte: nothing fits, or where the first group lies. -/
def FieldOk (maxSize byte size field : ℕ) : Prop :=
  (field = 0 → ∀ pos < 8, Within maxSize pos size → ¬Run (Clear byte) pos size) ∧
    (field ≠ 0 → Within maxSize (field &&& 7) size ∧ Run (Clear byte) (field &&& 7) size ∧
      ∀ pos < field &&& 7, Within maxSize pos size → ¬Run (Clear byte) pos size)

instance (maxSize byte size field : ℕ) : Decidable (FieldOk maxSize byte size field) :=
  inferInstanceAs (Decidable (_ ∧ _))

/-- A number of bits that are clear from the low end of a byte on, and of bits that are clear at its high end. -/
def CrossOk (byte low high : ℕ) : Prop :=
  (low ≤ 8 ∧ Run (Clear byte) 0 low ∧ (low < 8 → ¬Clear byte low)) ∧
    high ≤ 8 ∧ Run (Clear byte) (8 - high) high ∧ (high < 8 → ¬Clear byte (7 - high))

instance (byte low high : ℕ) : Decidable (CrossOk byte low high) := inferInstanceAs (Decidable (_ ∧ _))

theorem fragWord_one_ok : ∀ byte < 256, ∀ size < 1, FieldOk 1 byte (size + 1) (fragWord byte 1 1 1 0 >>> (size * 4) &&& 0xf) := by
  decide +kernel

theorem fragWord_two_ok : ∀ byte < 256, ∀ size < 2, FieldOk 2 byte (size + 1) (fragWord byte 2 2 1 0 >>> (size * 4) &&& 0xf) := by
  decide +kernel

theorem fragWord_four_ok : ∀ byte < 256, ∀ size < 4, FieldOk 4 byte (size + 1) (fragWord byte 4 4 1 0 >>> (size * 4) &&& 0xf) := by
  decide +kernel

theorem fragWord_eight_ok : ∀ byte < 256, ∀ size < 8, FieldOk 8 byte (size + 1) (fragWord byte 8 8 1 0 >>> (size * 4) &&& 0xf) := by
  decide +kernel

theorem crossByte_ok : ∀ byte < 256,
    CrossOk byte (crossByte byte 8 1 (0xff <<< 7) 0 0 &&& 0xf) (crossByte byte 8 1 (0xff <<< 7) 0 0 >>> 4 &&& 0xf) := by
  decide +kernel

theorem getD_byteTable (f : ℕ → ℕ) {byte : ℕ} (hbyte : byte < 256) : ((List.range 256).map f).getD byte 0 = f byte := by
  rw [List.getD_eq_getElem?_getD, List.getElem?_map, List.getElem?_range hbyte]
  rfl

theorem fragSearchTable_ok {maxSize byte size : ℕ} (hmax : maxSize = 1 ∨ maxSize = 2 ∨ maxSize = 4 ∨ maxSize = 8)
    (hbyte : byte < 256) (hpos : 1 ≤ size) (hsize : size ≤ maxSize) :
    FieldOk maxSize byte size ((fragSearchTable maxSize).getD byte 0 >>> ((size - 1) * 4) &&& 0xf) := by
  obtain ⟨less, rfl⟩ : ∃ less, size = less + 1 := ⟨size - 1, by omega⟩
  rw [fragSearchTable, getD_byteTable _ hbyte, Nat.add_sub_cancel]
  rcases hmax with rfl | rfl | rfl | rfl
  · exact fragWord_one_ok byte hbyte less hsize
  · exact fragWord_two_ok byte hbyte less hsize
  · exact fragWord_four_ok byte hbyte less hsize
  · exact fragWord_eight_ok byte hbyte less hsize

theorem fragCrossTable_ok {byte : ℕ} (hbyte : byte < 256) :
    CrossOk byte (fragCrossTable.getD byte 0 &&& 0xf) (fragCrossTable.getD byte 0 >>> 4 &&& 0xf) := by
  rw [fragCrossTable, getD_byteTable _ hbyte]
  exact crossByte_ok byte hbyte

variable {page : bitmapPage} {h : allocationData}

def fragFree (page : bitmapPage) (h : allocationData) (k : ℕ) : Prop := Clear (BitsArray page h (k / 8)).toNat (k % 8)

def blockFree (page : bitmapPage) (h : allocationData) (b : ℕ) : Prop :=
  Run (fragFree page h) (b * h.fragmentsPerBlock) h.fragmentsPerBlock

/-- What the page says about the kind of the fragments of a block that is used in part. -/
def loggedBlock (page : bitmapPage) (b : ℕ) : Bool := (page.logged (b / 8)).getLsbD (b % 8)

instance (page : bitmapPage) (h : allocationData) (k : ℕ) : Decidable (fragFree page h k) :=
  inferInstanceAs (Decidable (Clear _ _))

instance (page : bitmapPage) (h : allocationData) (b : ℕ) : Decidable (blockFree page h b) :=
  inferInstanceAs (Decidable (∀ k < _, fragFree page h (_ + k)))

/-- A handle that has the form `InitHandle` gives it. -/
structure allocationData.Formatted (h : allocationData) : Prop where
  log_le : h.logFrags ≤ 6
  size : h.fragmentsPerBlock = 1 <<< h.logFrags
  eight : h.blocksPerPage % 8 = 0
  bytes : h.bitsLength = h.blocksPerPage / 8 * h.fragmentsPerBlock
  kinds : h.loggedLength = if h.fragmentsPerBlock = 1 then 0 else h.blocksPerPage / 8
  search : h.fragSearchArray = fragSearchTable (min h.fragmentsPerBlock 8)
  cross : 8 < h.fragmentsPerBlock → h.fragCrossArray = fragCrossTable

theorem fragmentsPerBlock_eq (device : async_device) :
    device.blkSize >>> device.logFragSize = 1 <<< (device.logBlkSize - device.logFragSize) := by
  have hle := device.frag_le
  rw [device.blkSize_eq, Nat.shiftRight_eq_div_pow, Nat.one_shiftLeft, Nat.one_shiftLeft,
    Nat.pow_div hle (by decide)]

theorem InitHandle_formatted {device : async_device} {info : Option epia_info} {firstPage : bitmapPage}
    (hinit : InitHandle device info firstPage = some h) : h.Formatted := by
  cases info with
  | none => exact absurd hinit (by simp [InitHandle])
  | some info =>
    simp only [InitHandle, Option.bind_eq_bind, Option.bind_some] at hinit
    split_ifs at hinit with _ _ _ _ hsize hrange _ height
    have hframe := Option.some.inj hinit
    have hfrags : firstPage.fragmentsPerBlock = 1 <<< (device.logBlkSize - device.logFragSize) :=
      (not_not.mp hsize).trans (fragmentsPerBlock_eq device)
    have hlog : device.logBlkSize - device.logFragSize ≤ 6 := by
      have hmax := hrange.2
      rw [hfrags, Nat.one_shiftLeft] at hmax
      exact (Nat.pow_le_pow_iff_right (by decide : 1 < 2)).mp hmax
    have hblocks : firstPage.blocksPerPage % 8 = 0 := by
      have hand := Nat.and_two_pow_sub_one_eq_mod firstPage.blocksPerPage 3
      exact hand.symm.trans (not_not.mp height)
    rw [← hframe]
    exact ⟨hlog, hfrags, hblocks, rfl, rfl, rfl, fun hlarge => if_pos hlarge⟩

namespace allocationData.Formatted

variable (hh : h.Formatted)

include hh

theorem cases : (h.fragmentsPerBlock = 1 ∨ h.fragmentsPerBlock = 2 ∨ h.fragmentsPerBlock = 4 ∨
    h.fragmentsPerBlock = 8) ∨ h.fragmentsPerBlock = 16 ∨ h.fragmentsPerBlock = 32 ∨ h.fragmentsPerBlock = 64 := by
  have hlog := hh.log_le
  have hsize := hh.size
  rw [Nat.one_shiftLeft] at hsize
  interval_cases hl : h.logFrags
  all_goals omega

theorem small (hle : h.fragmentsPerBlock ≤ 8) :
    h.fragmentsPerBlock = 1 ∨ h.fragmentsPerBlock = 2 ∨ h.fragmentsPerBlock = 4 ∨ h.fragmentsPerBlock = 8 := by
  rcases hh.cases with hsmall | hlarge
  · exact hsmall
  · omega

theorem large (hlt : 8 < h.fragmentsPerBlock) :
    h.fragmentsPerBlock = 16 ∨ h.fragmentsPerBlock = 32 ∨ h.fragmentsPerBlock = 64 := by
  rcases hh.cases with hsmall | hlarge
  · omega
  · exact hlarge

theorem shiftRight (k : ℕ) : k >>> h.logFrags = k / h.fragmentsPerBlock := by
  rw [hh.size, Nat.shiftRight_eq_div_pow, Nat.one_shiftLeft]

theorem baseFrag (k : ℕ) : BaseFrag h k = k / h.fragmentsPerBlock * h.fragmentsPerBlock := by
  have hmod : k &&& (h.fragmentsPerBlock - 1) = k % h.fragmentsPerBlock := by
    rw [hh.size, Nat.one_shiftLeft]
    exact Nat.and_two_pow_sub_one_eq_mod k h.logFrags
  have hdiv := Nat.div_add_mod k h.fragmentsPerBlock
  rw [BaseFrag, hmod, Nat.mul_comm]
  omega

theorem bits : h.bitsLength * 8 = h.blocksPerPage * h.fragmentsPerBlock := by
  have hblocks : h.blocksPerPage = h.blocksPerPage / 8 * 8 := by
    have height := hh.eight
    omega
  calc h.bitsLength * 8 = h.blocksPerPage / 8 * 8 * h.fragmentsPerBlock := by rw [hh.bytes, Nat.mul_right_comm]
    _ = h.blocksPerPage * h.fragmentsPerBlock := congrArg (· * h.fragmentsPerBlock) hblocks.symm

theorem pos : 0 < h.fragmentsPerBlock := by
  rcases hh.cases with (hsize | hsize | hsize | hsize) | hsize | hsize | hsize <;> omega

end allocationData.Formatted

theorem fragFree_byte (page : bitmapPage) (h : allocationData) (i : ℕ) {j : ℕ} (hj : j < 8) :
    fragFree page h (i * 8 + j) ↔ Clear (BitsArray page h i).toNat j := by
  have hdiv : (i * 8 + j) / 8 = i := by omega
  have hmod : (i * 8 + j) % 8 = j := by omega
  rw [fragFree, hdiv, hmod]

theorem mask_lt {n p : ℕ} (hend : n + p ≤ 8) : ((1 <<< n) - 1) <<< p < 256 := by
  rw [Nat.shiftLeft_eq, Nat.one_shiftLeft]
  calc (2 ^ n - 1) * 2 ^ p < 2 ^ n * 2 ^ p :=
        Nat.mul_lt_mul_of_pos_right (Nat.sub_lt (Nat.two_pow_pos _) (by decide)) (Nat.two_pow_pos _)
    _ = 2 ^ (n + p) := (Nat.pow_add ..).symm
    _ ≤ 2 ^ 8 := Nat.pow_le_pow_right (by decide) hend

theorem and_mask_eq_zero_iff (x n p : ℕ) : x &&& ((1 <<< n) - 1) <<< p = 0 ↔ Run (Clear x) p n := by
  rw [Nat.one_shiftLeft]
  constructor
  · intro hzero k hk
    have hbit := congrArg (Nat.testBit · (p + k)) hzero
    simpa [Clear, Nat.testBit_shiftLeft, Nat.testBit_two_pow_sub_one, hk] using hbit
  · intro hrun
    apply Nat.eq_of_testBit_eq
    intro i
    rw [Nat.testBit_and, Nat.testBit_shiftLeft, Nat.testBit_two_pow_sub_one, Nat.zero_testBit]
    by_cases hin : p ≤ i ∧ i - p < n
    · have hclear : Clear x i := hrun.place hin.1 (by omega)
      rw [show x.testBit i = false from hclear, Bool.false_and]
    · have hout : (decide (i ≥ p) && decide (i - p < n)) = false := by simpa using hin
      rw [hout, Bool.and_false]

theorem byte_eq_zero_iff {byte : ℕ} (hbyte : byte < 256) : byte = 0 ↔ Run (Clear byte) 0 8 := by
  have hmask := and_mask_eq_zero_iff byte 8 0
  have hand : byte &&& 255 = byte := by
    rw [Nat.and_two_pow_sub_one_eq_mod byte 8]
    exact Nat.mod_eq_of_lt hbyte
  rw [← hmask]
  exact Iff.of_eq (congrArg (· = 0) hand.symm)

theorem small_block_place {m : ℕ} (hm : m = 1 ∨ m = 2 ∨ m = 4 ∨ m = 8) (b : ℕ) :
    b * m / 8 * 8 + b * m % 8 = b * m ∧ b * m % 8 + m ≤ 8 := by
  rcases hm with rfl | rfl | rfl | rfl <;> omega

theorem run_byte_iff (page : bitmapPage) (h : allocationData) (i : ℕ) {p n : ℕ} (hend : p + n ≤ 8) :
    Run (fragFree page h) (i * 8 + p) n ↔ Run (Clear (BitsArray page h i).toNat) p n := by
  constructor
  · intro hrun k hk
    have hplace := hrun k hk
    rw [Nat.add_assoc] at hplace
    exact (fragFree_byte page h i (by omega)).mp hplace
  · intro hrun k hk
    rw [Nat.add_assoc]
    exact (fragFree_byte page h i (by omega)).mpr (hrun k hk)

theorem byte_zero_iff (page : bitmapPage) (h : allocationData) (i : ℕ) :
    (BitsArray page h i).toNat = 0 ↔ Run (fragFree page h) (i * 8) 8 := by
  rw [byte_eq_zero_iff (BitsArray page h i).isLt, ← run_byte_iff page h i (by omega)]
  rfl

theorem bytes_zero_iff (page : bitmapPage) (h : allocationData) (i c : ℕ) :
    (∀ j < c, (BitsArray page h (i + j)).toNat = 0) ↔ Run (fragFree page h) (i * 8) (c * 8) := by
  constructor
  · intro hzero
    refine Run.of_places fun k hk hlt => ?_
    have hbyte := (byte_zero_iff page h (i + (k / 8 - i))).mp (hzero _ (by omega))
    exact hbyte.place (by omega) (by omega)
  · intro hrun j hj
    exact (byte_zero_iff page h (i + j)).mpr (hrun.part (by omega) (by omega))

theorem IsWholeBlockFree_iff (page : bitmapPage) (hh : h.Formatted) (firstFrag : ℕ) :
    IsWholeBlockFree h (BitsArray page h) firstFrag = true ↔ blockFree page h (firstFrag / h.fragmentsPerBlock) := by
  rw [IsWholeBlockFree, hh.baseFrag, blockFree]
  generalize firstFrag / h.fragmentsPerBlock = b
  by_cases hle : h.fragmentsPerBlock ≤ 8
  · obtain ⟨hplace, hend⟩ := small_block_place (hh.small hle) b
    have hbit : b * h.fragmentsPerBlock &&& 7 = b * h.fragmentsPerBlock % 8 :=
      Nat.and_two_pow_sub_one_eq_mod (b * h.fragmentsPerBlock) 3
    have hmask := Nat.mod_eq_of_lt (mask_lt (n := h.fragmentsPerBlock) (p := b * h.fragmentsPerBlock % 8) (by omega))
    simp only [if_pos hle, decide_eq_true_eq, hbit, hmask, Nat.shiftRight_eq_div_pow]
    rw [and_mask_eq_zero_iff, ← run_byte_iff page h _ hend]
    exact Iff.of_eq (congrArg (Run (fragFree page h) · _) hplace)
  · have hlarge := hh.large (by omega)
    have hbase : (b * h.fragmentsPerBlock) >>> 3 * 8 = b * h.fragmentsPerBlock := by
      rw [Nat.shiftRight_eq_div_pow]
      rcases hlarge with hsize | hsize | hsize <;> rw [hsize] <;> omega
    have hsize : h.fragmentsPerBlock / 8 * 8 = h.fragmentsPerBlock := by omega
    have hbytes := bytes_zero_iff page h ((b * h.fragmentsPerBlock) >>> 3) (h.fragmentsPerBlock / 8)
    rw [hbase, hsize] at hbytes
    simpa only [if_neg hle, List.all_eq_true, List.mem_range, decide_eq_true_eq] using hbytes

theorem IsLogged_eq (hh : h.Formatted) (hlog : h.logFrags ≠ 0) (firstFrag : ℕ) :
    IsLogged page h firstFrag = if loggedBlock page (firstFrag / h.fragmentsPerBlock) then 1 else 0 := by
  rw [IsLogged, hh.shiftRight, loggedBlock]
  generalize firstFrag / h.fragmentsPerBlock = b
  have hbit : b &&& 7 = b % 8 := Nat.and_two_pow_sub_one_eq_mod b 3
  have hand : (page.logged (b / 8)).toNat &&& 1 <<< (b % 8) ≠ 0 ↔ (page.logged (b / 8)).getLsbD (b % 8) = true := by
    rw [Nat.one_shiftLeft, Nat.and_two_pow, BitVec.getLsbD]
    cases (page.logged (b / 8)).toNat.testBit (b % 8) <;> simp
  simp only [if_neg hlog, hbit, Nat.shiftRight_eq_div_pow, Nat.reducePow, hand]

end dce.episode.bitmap
