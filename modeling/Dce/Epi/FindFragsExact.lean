import Dce.Epi.FindBlockExact

open lib

namespace dce.episode.bitmap

variable {page : bitmapPage} {h : allocationData} {logged : Bool} {start n i bits b : ℕ}

/-- The argument of `FindFrags` for a kind of fragments. -/
def kind (logged : Bool) : ℤ := if logged then 1 else 0

/-- A block whose free fragments may be used for a kind. -/
def Suits (page : bitmapPage) (h : allocationData) (logged : Bool) (b : ℕ) : Prop :=
  blockFree page h b ∨ loggedBlock page b = logged

/-- A group of free fragments within one block, not before the place where the search starts. -/
structure GroupAt (page : bitmapPage) (h : allocationData) (start n b first : ℕ) : Prop where
  begins : b * h.fragmentsPerBlock ≤ first
  ends : first + n ≤ (b + 1) * h.fragmentsPerBlock
  run : Run (Open page h start) first n

/-- A block that a search for fragments may answer with. -/
def Qualifies (page : bitmapPage) (h : allocationData) (logged : Bool) (start n b : ℕ) : Prop :=
  Suits page h logged b ∧ ∃ first, GroupAt page h start n b first

/-- A result of a search for fragments: the first group in the first block that qualifies, and the true state of that block. -/
structure FragFound (page : bitmapPage) (h : allocationData) (logged : Bool) (start n : ℕ) (result : ℤ × ℤ) (b first : ℕ) :
    Prop where
  frag : result.1 = first
  within : b < h.blocksPerPage
  group : GroupAt page h start n b first
  least : ∀ first' < first, ¬GroupAt page h start n b first'
  suits : Suits page h logged b
  earliest : ∀ b' < b, ¬Qualifies page h logged start n b'
  whole : result.2 = if blockFree page h b then 1 else 0

def FragsFound (page : bitmapPage) (h : allocationData) (logged : Bool) (start n : ℕ) (result : ℤ × ℤ) : Prop :=
  (result = (NO_FRAG, -1) ∧ ∀ b < h.blocksPerPage, ¬Qualifies page h logged start n b) ∨
    ∃ b first, FragFound page h logged start n result b first

theorem mismatch_iff (hh : h.Formatted) {k : ℕ} (hone : h.logFrags = 0 → blockFree page h (k / h.fragmentsPerBlock)) :
    ((!IsWholeBlockFree h (BitsArray page h) k) = true ∧ IsLogged page h k ≠ kind logged) ↔
      ¬Suits page h logged (k / h.fragmentsPerBlock) := by
  have hwhole := IsWholeBlockFree_iff page hh k
  rw [Suits, not_or, ← hwhole, Bool.not_eq_true', Bool.not_eq_true]
  refine and_congr_right fun hpart => ?_
  have hlog : h.logFrags ≠ 0 := by
    intro hzero
    rw [hwhole.mpr (hone hzero)] at hpart
    cases hpart
  rw [IsLogged_eq hh hlog, kind]
  cases loggedBlock page (k / h.fragmentsPerBlock) <;> cases logged <;> simp

theorem whole_eq (hh : h.Formatted) (k : ℕ) :
    (if IsWholeBlockFree h (BitsArray page h) k then (1 : ℤ) else 0) =
      if blockFree page h (k / h.fragmentsPerBlock) then 1 else 0 :=
  if_congr (IsWholeBlockFree_iff page hh k) rfl rfl

theorem group_block (hh : h.Formatted) (hpos : 1 ≤ n) {first : ℕ} (hg : GroupAt page h start n b first) :
    first / h.fragmentsPerBlock = b := by
  have hends := hg.ends
  rw [Nat.div_eq_iff hh.pos]
  exact ⟨hg.begins, by rw [Nat.add_mul] at hends; omega⟩

theorem group_within {m first : ℕ} (hm : m = 1 ∨ m = 2 ∨ m = 4 ∨ m = 8) (hpos : 1 ≤ n) (hbegins : b * m ≤ first)
    (hends : first + n ≤ (b + 1) * m) : first = b * m / 8 * 8 + first % 8 ∧ Within m (first % 8) n := by
  rcases hm with rfl | rfl | rfl | rfl <;> refine ⟨by omega, by omega, by omega⟩

theorem within_group {m p : ℕ} (hm : m = 1 ∨ m = 2 ∨ m = 4 ∨ m = 8) (hpos : 1 ≤ n) (hp : Within m p n) (i : ℕ) :
    (i * 8 + p) / m * m ≤ i * 8 + p ∧ i * 8 + p + n ≤ ((i * 8 + p) / m + 1) * m ∧ (i * 8 + p) / m * m / 8 = i := by
  obtain ⟨hend, hsame⟩ := hp
  rcases hm with rfl | rfl | rfl | rfl <;> refine ⟨by omega, by omega, by omega⟩

/-- A byte in the middle of the search: bits are masked out only before the start and in blocks that do not suit, and
the blocks of the bytes before it do not qualify. -/
structure ScanByte (page : bitmapPage) (h : allocationData) (logged : Bool) (start n i bits : ℕ) : Prop where
  lt : bits < 256
  clear : ∀ j < 8, Clear bits j → Open page h start (i * 8 + j)
  masked : ∀ j < 8, ¬Clear bits j → Open page h start (i * 8 + j) →
    ¬Suits page h logged ((i * 8 + j) / h.fragmentsPerBlock)
  before : ∀ b, b * h.fragmentsPerBlock / 8 < i → ¬Qualifies page h logged start n b

theorem Shows.scan (hs : Shows page h start i bits)
    (hbefore : ∀ b, b * h.fragmentsPerBlock / 8 < i → ¬Qualifies page h logged start n b) :
    ScanByte page h logged start n i bits where
  lt := hs.lt
  clear j hj hclear := (hs.clear_iff j hj).mp hclear
  masked j hj hset hopen := absurd ((hs.clear_iff j hj).mpr hopen) hset
  before := hbefore

namespace ScanByte

variable (hscan : ScanByte page h logged start n i bits)
include hscan

variable (hm : h.fragmentsPerBlock = 1 ∨ h.fragmentsPerBlock = 2 ∨ h.fragmentsPerBlock = 4 ∨ h.fragmentsPerBlock = 8)

include hm

theorem run_of_group (hpos : 1 ≤ n) (hbyte : b * h.fragmentsPerBlock / 8 = i) (hsuits : Suits page h logged b) {first : ℕ}
    (hg : GroupAt page h start n b first) :
    first = i * 8 + first % 8 ∧ Within h.fragmentsPerBlock (first % 8) n ∧ Run (Clear bits) (first % 8) n := by
  obtain ⟨hfirst, hwithin⟩ := group_within hm hpos hg.begins hg.ends
  rw [hbyte] at hfirst
  have hends := hg.ends
  have hbegins := hg.begins
  refine ⟨hfirst, hwithin, fun k hk => ?_⟩
  by_contra hset
  have hopen := hg.run k hk
  have hplace : first + k = i * 8 + (first % 8 + k) := by omega
  rw [hplace] at hopen
  refine hscan.masked (first % 8 + k) (by have hend := hwithin.1; omega) hset hopen ?_
  have hsame : (i * 8 + (first % 8 + k)) / h.fragmentsPerBlock = b := by
    rw [← hplace]
    rcases hm with hm | hm | hm | hm <;> rw [hm] at hbegins hends ⊢ <;> omega
  rwa [hsame]

theorem group_of_run (hpos : 1 ≤ n) {p : ℕ} (hwithin : Within h.fragmentsPerBlock p n) (hrun : Run (Clear bits) p n) :
    GroupAt page h start n ((i * 8 + p) / h.fragmentsPerBlock) (i * 8 + p) := by
  obtain ⟨hbegins, hends, _⟩ := within_group hm hpos hwithin i
  refine ⟨hbegins, hends, fun k hk => ?_⟩
  have hend := hwithin.1
  rw [Nat.add_assoc]
  exact hscan.clear (p + k) (by omega) (hrun k hk)

theorem next
    (hpos : 1 ≤ n) (hnone : ∀ p < 8, Within h.fragmentsPerBlock p n → ¬Run (Clear bits) p n) (hstart : start ≤ (i + 1) * 8) :
    ScanByte page h logged start n (i + 1) (BitsArray page h (i + 1)).toNat := by
  refine (Shows.later hstart).scan fun b hbyte hq => ?_
  rcases Nat.lt_or_ge (b * h.fragmentsPerBlock / 8) i with hprev | hsame
  · exact hscan.before b hprev hq
  · obtain ⟨hsuits, first, hg⟩ := hq
    obtain ⟨_, hwithin, hrun⟩ := hscan.run_of_group hm hpos (by omega) hsuits hg
    exact hnone _ (by omega) hwithin hrun

theorem mask {p : ℕ} (hp : p < 8) (hclear : Clear bits p) (hbad : ¬Suits page h logged ((i * 8 + p) / h.fragmentsPerBlock)) :
    ScanByte page h logged start n i
        (bits ||| ((1 <<< h.fragmentsPerBlock) - 1) <<< (p / h.fragmentsPerBlock * h.fragmentsPerBlock)) ∧
      bits < bits ||| ((1 <<< h.fragmentsPerBlock) - 1) <<< (p / h.fragmentsPerBlock * h.fragmentsPerBlock) := by
  have hplace : p / h.fragmentsPerBlock * h.fragmentsPerBlock ≤ p ∧
      p < p / h.fragmentsPerBlock * h.fragmentsPerBlock + h.fragmentsPerBlock ∧
      p / h.fragmentsPerBlock * h.fragmentsPerBlock + h.fragmentsPerBlock ≤ 8 := by
    rcases hm with hm | hm | hm | hm <;> rw [hm] <;> omega
  have hsame : ∀ j, p / h.fragmentsPerBlock * h.fragmentsPerBlock ≤ j →
      j < p / h.fragmentsPerBlock * h.fragmentsPerBlock + h.fragmentsPerBlock →
      (i * 8 + j) / h.fragmentsPerBlock = (i * 8 + p) / h.fragmentsPerBlock := by
    rcases hm with hm | hm | hm | hm <;> rw [hm] <;> omega
  generalize p / h.fragmentsPerBlock * h.fragmentsPerBlock = q at hplace hsame ⊢
  constructor
  · have hmask : ((1 <<< h.fragmentsPerBlock) - 1) <<< q < 2 ^ 8 := mask_lt (by omega)
    refine ⟨Nat.or_lt_two_pow (n := 8) hscan.lt hmask, fun j hj hj' => ?_, fun j hj hset hopen => ?_, hscan.before⟩
    · exact hscan.clear j hj ((clear_or_mask_iff ..).mp hj').1
    · by_cases hold : Clear bits j
      · have hcovered : q ≤ j ∧ j < q + h.fragmentsPerBlock := by
          by_contra hout
          exact hset ((clear_or_mask_iff ..).mpr ⟨hold, hout⟩)
        rwa [hsame j hcovered.1 hcovered.2]
      · exact hscan.masked j hj hold hopen
  · refine lt_of_le_of_ne Nat.left_le_or fun heq => ?_
    have hnew : Clear (bits ||| ((1 <<< h.fragmentsPerBlock) - 1) <<< q) p := by rwa [← heq]
    exact ((clear_or_mask_iff ..).mp hnew).2 ⟨hplace.1, hplace.2.1⟩

end ScanByte

theorem findInByte_found (hh : h.Formatted) (hsmall : h.fragmentsPerBlock ≤ 8) (hpos : 1 ≤ n) (hn : n ≤ h.fragmentsPerBlock) :
    ∀ steps i bits, ScanByte page h logged start n i bits → start / 8 ≤ i →
      256 * (h.bitsLength - i) + (255 - bits) < steps →
      ∃ result, findInByte page h (kind logged) n steps i bits = some result ∧ FragsFound page h logged start n result := by
  have hm := hh.small hsmall
  intro steps
  induction steps with
  | zero => intro i bits _ _ hsteps; omega
  | succ steps ih =>
    intro i bits hscan hstart hsteps
    rw [findInByte]
    by_cases hin : i < h.bitsLength
    · rw [if_pos hin]
      have hfield := fragField_ok hh hscan.lt hpos (le_min hn (hn.trans hsmall))
      rw [Nat.min_eq_left hsmall] at hfield
      have hlt := hscan.lt
      generalize fragField h ((n - 1) * 4) bits = found at hfield ⊢
      by_cases hzero : found = 0
      · simp only [hzero, ne_eq, not_true_eq_false, if_false]
        exact ih (i + 1) _ (hscan.next hm hpos (hfield.1 hzero) (by omega)) (by omega) (by omega)
      · simp only [ne_eq, hzero, not_false_eq_true, if_true]
        obtain ⟨hwithin, hrun, hleast⟩ := hfield.2 hzero
        have hend := hwithin.1
        have hg := hscan.group_of_run hm hpos hwithin hrun
        generalize found &&& 7 = p at hwithin hrun hleast hend hg ⊢
        have hone : h.logFrags = 0 → blockFree page h ((i * 8 + p) / h.fragmentsPerBlock) := by
          intro hlog
          have hsize : h.fragmentsPerBlock = 1 := by rw [hh.size, hlog]; rfl
          have hn1 : n = 1 := by omega
          rw [blockFree, hsize, Nat.div_one, Nat.mul_one, ← hn1]
          exact fun k hk => (hg.run k hk).2
        by_cases hbad : Suits page h logged ((i * 8 + p) / h.fragmentsPerBlock)
        · rw [if_neg (fun hskip => (mismatch_iff hh hone).mp hskip hbad), whole_eq hh]
          refine ⟨_, rfl, .inr ⟨_, _, rfl, ?_, hg, fun first' hlt hg' => ?_, hbad, fun b' hlt hq => ?_, rfl⟩⟩
          · rw [Nat.div_lt_iff_lt_mul hh.pos, ← hh.bits]
            omega
          · obtain ⟨hplace, hwithin', hrun'⟩ := hscan.run_of_group hm hpos (within_group hm hpos hwithin i).2.2 hbad hg'
            exact hleast _ (by omega) hwithin' hrun'
          · rcases Nat.lt_or_ge (b' * h.fragmentsPerBlock / 8) i with hprev | hge
            · exact hscan.before b' hprev hq
            · have hmul := Nat.mul_lt_mul_of_pos_right hlt hh.pos
              have hle := Nat.div_mul_le_self (i * 8 + p) h.fragmentsPerBlock
              obtain ⟨hsuits, first', hg'⟩ := hq
              obtain ⟨hplace, hwithin', hrun'⟩ := hscan.run_of_group hm hpos (b := b') (by omega) hsuits hg'
              refine hleast _ ?_ hwithin' hrun'
              have hends := hg'.ends
              have hnext := Nat.mul_le_mul_right h.fragmentsPerBlock (show b' + 1 ≤ _ from hlt)
              have hbegins := hg.begins
              omega
        · rw [if_pos ((mismatch_iff hh hone).mpr hbad), hh.baseFrag]
          have hclear : Clear bits p := hrun 0 (by omega)
          obtain ⟨hscan', hgrows⟩ := hscan.mask hm (by omega) hclear hbad
          exact ih i _ hscan' hstart (by have hlt' := hscan'.lt; omega)
    · rw [if_neg hin]
      refine ⟨_, rfl, .inl ⟨rfl, fun b hb => hscan.before b ?_⟩⟩
      have hbits := hh.bits
      have hmul := Nat.mul_lt_mul_of_pos_right hb hh.pos
      omega

/-- The last byte of the block of a byte, which is found by setting the low bits of its number. -/
structure LastByte (h : allocationData) (i last : ℕ) : Prop where
  ge : i ≤ last
  next : (last + 1) * 8 = (i * 8 / h.fragmentsPerBlock + 1) * h.fragmentsPerBlock

theorem or_mask_place (i k : ℕ) :
    (i ||| (2 ^ k - 1)) / 2 ^ k = i / 2 ^ k ∧ (i ||| (2 ^ k - 1)) % 2 ^ k = 2 ^ k - 1 ∧ i &&& (2 ^ k - 1) = i % 2 ^ k := by
  refine ⟨?_, ?_, Nat.and_two_pow_sub_one_eq_mod i k⟩
  · have hzero : (2 ^ k - 1) >>> k = 0 := by
      rw [Nat.shiftRight_eq_div_pow]
      exact Nat.div_eq_of_lt (Nat.sub_lt (Nat.two_pow_pos k) (by decide))
    rw [← Nat.shiftRight_eq_div_pow, Nat.shiftRight_or_distrib, hzero, Nat.or_zero, Nat.shiftRight_eq_div_pow]
  · rw [← Nat.and_two_pow_sub_one_eq_mod, Nat.and_or_distrib_right, Nat.and_self]
    apply Nat.eq_of_testBit_eq
    intro j
    rw [Nat.testBit_or, Nat.testBit_and]
    cases i.testBit j <;> simp

theorem blockMask_cases (hh : h.Formatted) (hlarge : 8 < h.fragmentsPerBlock) (i : ℕ) :
    LastByte h i (i ||| ((h.fragmentsPerBlock >>> 3) - 1)) ∧
      (i &&& ((h.fragmentsPerBlock >>> 3) - 1) = (h.fragmentsPerBlock >>> 3) - 1 → LastByte h i i) ∧
      (i &&& ((h.fragmentsPerBlock >>> 3) - 1) ≠ (h.fragmentsPerBlock >>> 3) - 1 →
        (i + 1) * 8 / h.fragmentsPerBlock = i * 8 / h.fragmentsPerBlock) := by
  have hparts : ∃ k, (h.fragmentsPerBlock >>> 3) - 1 = 2 ^ k - 1 ∧ h.fragmentsPerBlock = 2 ^ k * 8 ∧ 1 ≤ k ∧ k ≤ 3 := by
    rcases hh.large hlarge with hsize | hsize | hsize
    · exact ⟨1, by rw [hsize]; rfl, hsize, by decide, by decide⟩
    · exact ⟨2, by rw [hsize]; rfl, hsize, by decide, by decide⟩
    · exact ⟨3, by rw [hsize]; rfl, hsize, by decide, by decide⟩
  obtain ⟨k, hmask, hsize, hk, hk'⟩ := hparts
  obtain ⟨hdiv, hmod, hand⟩ := or_mask_place i k
  rw [hmask, hand]
  refine ⟨⟨Nat.left_le_or, ?_⟩, fun hlast => ⟨le_rfl, ?_⟩, fun hmid => ?_⟩ <;> rw [hsize] <;>
    interval_cases k <;> omega

/-- A byte in the middle of the search when a block has several: the free fragments before it are known, and no group
ended before it in its block or in a block before. -/
structure ScanAcross (page : bitmapPage) (h : allocationData) (logged : Bool) (start n i bits trailingEdge : ℕ) (empty : Bool) :
    Prop where
  shows : Shows page h start i bits
  tail : Tail (Open page h start) (i * 8 / h.fragmentsPerBlock * h.fragmentsPerBlock) (i * 8) trailingEdge
  fresh : ∀ first, GroupAt page h start n (i * 8 / h.fragmentsPerBlock) first → ¬first + n ≤ i * 8
  before : ∀ b < i * 8 / h.fragmentsPerBlock, ¬Qualifies page h logged start n b
  part : empty = false → ¬blockFree page h (i * 8 / h.fragmentsPerBlock)

/-- What a byte has to say about the groups that end in it. -/
def EndsIn (page : bitmapPage) (h : allocationData) (start n i : ℕ) : Option ℕ → Prop
  | some first => GroupAt page h start n (i * 8 / h.fragmentsPerBlock) first ∧
      ∀ first' < first, ¬GroupAt page h start n (i * 8 / h.fragmentsPerBlock) first'
  | none => ∀ first, GroupAt page h start n (i * 8 / h.fragmentsPerBlock) first → ¬first + n ≤ i * 8 + 8

theorem byte_in_block (hh : h.Formatted) (hlarge : 8 < h.fragmentsPerBlock) (i : ℕ) :
    i * 8 / h.fragmentsPerBlock * h.fragmentsPerBlock ≤ i * 8 ∧
      i * 8 + 8 ≤ (i * 8 / h.fragmentsPerBlock + 1) * h.fragmentsPerBlock := by
  rcases hh.large hlarge with hsize | hsize | hsize <;> rw [hsize] <;> omega

theorem byte_zero_of_blockFree (hh : h.Formatted) (hlarge : 8 < h.fragmentsPerBlock)
    (hfree : blockFree page h (i * 8 / h.fragmentsPerBlock)) : (BitsArray page h i).toNat = 0 := by
  obtain ⟨hbegins, hends⟩ := byte_in_block hh hlarge i
  rw [Nat.add_mul, Nat.one_mul] at hends
  exact (byte_zero_iff page h i).mpr (hfree.part hbegins hends)

namespace ScanAcross

variable {trailingEdge : ℕ} {empty : Bool} (hscan : ScanAcross page h logged start n i bits trailingEdge empty)
include hscan

variable (hh : h.Formatted) (hlarge : 8 < h.fragmentsPerBlock)

include hh hlarge

theorem cross : CrossOk bits (h.fragCrossArray.getD bits 0 &&& 0xf) (h.fragCrossArray.getD bits 0 >>> 4 &&& 0xf) := by
  rw [hh.cross hlarge]
  exact fragCrossTable_ok hscan.shows.lt

theorem groupAt_ok (hpos : 1 ≤ n) : EndsIn page h start n i (groupAt h n i bits trailingEdge) := by
  obtain ⟨hbegins, hends⟩ := byte_in_block hh hlarge i
  obtain ⟨⟨hlow, hrun, hstop⟩, _⟩ := hscan.cross hh hlarge
  have htail := hscan.tail.le
  rw [groupAt]
  generalize h.fragCrossArray.getD bits 0 &&& 0xf = low at hlow hrun hstop ⊢
  have hopen : Run (Open page h start) (i * 8) low := (hscan.shows.run_iff (p := 0) (by omega)).mpr hrun
  by_cases hcross : n ≤ trailingEdge + low
  · rw [if_pos hcross]
    have hplace : i * 8 - trailingEdge + trailingEdge = i * 8 := by omega
    have hjoin := hscan.tail.run.join (by rwa [hplace])
    refine ⟨⟨by omega, by omega, hjoin.part le_rfl (by omega)⟩, fun first' hlt hg' => ?_⟩
    have hafter := hscan.fresh first' hg'
    have hfirst := hscan.tail.le_of_run hg'.run hg'.begins (by omega) (by omega)
    omega
  · rw [if_neg hcross]
    have hedge : ∀ first, GroupAt page h start n (i * 8 / h.fragmentsPerBlock) first → first < i * 8 → ¬first + n ≤ i * 8 + 8 := by
      intro first hg hlt hle
      have hafter := hscan.fresh first hg
      have hfirst := hscan.tail.le_of_run hg.run hg.begins hlt (by omega)
      refine hstop (by omega) ((hscan.shows.clear_iff low (by omega)).mpr (hg.run.place (by omega) (by omega)))
    by_cases hn : n ≤ 8
    · rw [if_pos hn]
      have hmin : min h.fragmentsPerBlock 8 = 8 := by omega
      have hfield := fragField_ok hh hscan.shows.lt hpos (by omega : n ≤ min h.fragmentsPerBlock 8)
      rw [hmin] at hfield
      generalize fragField h ((n - 1) * 4) bits = found at hfield ⊢
      by_cases hzero : found = 0
      · simp only [hzero, ne_eq, not_true_eq_false, if_false]
        intro first hg hle
        rcases Nat.lt_or_ge first (i * 8) with hlt | hge
        · exact hedge first hg hlt hle
        · have hplace : i * 8 + (first - i * 8) = first := by omega
          have hclear := (hscan.shows.run_iff (p := first - i * 8) (n := n) (by omega)).mp (by rw [hplace]; exact hg.run)
          exact hfield.1 hzero _ (by omega) ⟨by omega, by omega⟩ hclear
      · simp only [ne_eq, hzero, not_false_eq_true, if_true]
        obtain ⟨⟨hend, _⟩, hclear, hleast⟩ := hfield.2 hzero
        refine ⟨⟨by omega, by omega, (hscan.shows.run_iff hend).mpr hclear⟩, fun first' hlt hg' => ?_⟩
        rcases Nat.lt_or_ge first' (i * 8) with hprev | hge
        · exact hedge first' hg' hprev (by omega)
        · have hplace : i * 8 + (first' - i * 8) = first' := by omega
          have hclear' := (hscan.shows.run_iff (p := first' - i * 8) (n := n) (by omega)).mp (by rw [hplace]; exact hg'.run)
          exact hleast _ (by omega) ⟨by omega, by omega⟩ hclear'
    · rw [if_neg hn]
      intro first hg hle
      exact hedge first hg (by omega) hle

theorem part_next (hsame : (i + 1) * 8 / h.fragmentsPerBlock = i * 8 / h.fragmentsPerBlock)
    (hflag : (empty && decide ((BitsArray page h (i + 1)).toNat = 0)) = false) :
    ¬blockFree page h ((i + 1) * 8 / h.fragmentsPerBlock) := by
  intro hfree
  have hzero := byte_zero_of_blockFree hh hlarge hfree
  rw [hsame] at hfree
  have hempty : empty = false := by simpa [hzero] using hflag
  exact hscan.part hempty hfree

theorem next (hsame : (i + 1) * 8 / h.fragmentsPerBlock = i * 8 / h.fragmentsPerBlock) (hstart : start ≤ (i + 1) * 8)
    (hnone : ∀ first, GroupAt page h start n (i * 8 / h.fragmentsPerBlock) first → ¬first + n ≤ i * 8 + 8) :
    ScanAcross page h logged start n (i + 1) (BitsArray page h (i + 1)).toNat (trailingAfter h bits trailingEdge)
      (empty && decide ((BitsArray page h (i + 1)).toNat = 0)) where
  shows := .later hstart
  tail := by
    obtain ⟨_, hhigh, hrun, hstop⟩ := hscan.cross hh hlarge
    rw [hsame, Nat.add_mul, Nat.one_mul, trailingAfter]
    by_cases hzero : bits = 0
    · rw [if_pos hzero]
      exact hscan.tail.extend ((hscan.shows.run_iff (p := 0) (by omega)).mpr ((byte_eq_zero_iff hscan.shows.lt).mp hzero))
    · rw [if_neg hzero]
      generalize h.fragCrossArray.getD bits 0 >>> 4 &&& 0xf = high at hhigh hrun hstop ⊢
      have hlt : high < 8 := by
        refine lt_of_le_of_ne hhigh fun heq => hzero ((byte_eq_zero_iff hscan.shows.lt).mpr ?_)
        rwa [heq] at hrun
      have hbegins := hscan.tail.le
      have hplace : i * 8 + 8 - high = i * 8 + (8 - high) := by omega
      have hbefore : i * 8 + (8 - high) - 1 = i * 8 + (7 - high) := by omega
      refine ⟨by omega, ?_, fun _ hopen => ?_⟩
      · rw [hplace]
        exact (hscan.shows.run_iff (by omega)).mpr hrun
      · rw [hplace, hbefore] at hopen
        exact hstop hlt ((hscan.shows.clear_iff _ (by omega)).mpr hopen)
  fresh first hg := by
    rw [hsame] at hg
    rw [Nat.add_mul, Nat.one_mul]
    exact hnone first hg
  before b hb := hscan.before b (by rwa [hsame] at hb)
  part := hscan.part_next hh hlarge hsame

theorem nextBlock (hpos : 1 ≤ n) {last : ℕ} (hlast : LastByte h i last)
    (hstart : start ≤ (last + 1) * 8) (hbad : ¬Qualifies page h logged start n (i * 8 / h.fragmentsPerBlock)) :
    ScanAcross page h logged start n (last + 1) (BitsArray page h (last + 1)).toNat 0
      (decide ((BitsArray page h (last + 1)).toNat = 0)) := by
  have hblock : (last + 1) * 8 / h.fragmentsPerBlock = i * 8 / h.fragmentsPerBlock + 1 := by
    rw [hlast.next, Nat.mul_div_cancel _ hh.pos]
  refine ⟨.later hstart, ?_, fun first hg hle => ?_, fun b hb => ?_, fun hflag hfree => ?_⟩
  · rw [hblock, ← hlast.next]
    exact .start
  · have hbegins := hg.begins
    rw [hblock, ← hlast.next] at hbegins
    omega
  · rcases Nat.lt_or_ge b (i * 8 / h.fragmentsPerBlock) with hprev | hge
    · exact hscan.before b hprev
    · rwa [show b = i * 8 / h.fragmentsPerBlock by omega]
  · exact of_decide_eq_false hflag (byte_zero_of_blockFree hh hlarge hfree)

end ScanAcross

theorem findAcross_found (hh : h.Formatted) (hlarge : 8 < h.fragmentsPerBlock) (hpos : 1 ≤ n) :
    ∀ steps i bits trailingEdge empty, ScanAcross page h logged start n i bits trailingEdge empty → start / 8 ≤ i →
      h.bitsLength - i < steps →
      ∃ result, findAcross page h (kind logged) n steps i bits trailingEdge empty = some result ∧
        FragsFound page h logged start n result := by
  intro steps
  induction steps with
  | zero => intro i bits trailingEdge empty _ _ hsteps; omega
  | succ steps ih =>
    intro i bits trailingEdge empty hscan hstart hsteps
    obtain ⟨hskip, hlast, hmid⟩ := blockMask_cases hh hlarge i
    have hbits := hh.bits
    have htail := hscan.tail.le
    rw [findAcross]
    by_cases hin : i < h.bitsLength
    · have hassert : ¬(n ≤ trailingEdge + (h.fragCrossArray.getD bits 0 &&& 0xf) ∧ i * 8 < trailingEdge) := by omega
      simp only [if_pos hin, if_neg hassert]
      have hgroup := hscan.groupAt_ok hh hlarge hpos
      cases hfound : groupAt h n i bits trailingEdge with
      | none =>
        rw [hfound] at hgroup
        dsimp only
        by_cases hend : i &&& ((h.fragmentsPerBlock >>> 3) - 1) = (h.fragmentsPerBlock >>> 3) - 1
        · rw [if_pos hend]
          have hlast' := hlast hend
          refine ih _ _ _ _ (hscan.nextBlock hh hlarge hpos hlast' (by omega) ?_) (by omega) (by omega)
          rintro ⟨_, first, hg⟩
          have hends := hg.ends
          have hnext := hlast'.next
          exact hgroup first hg (by omega)
        · rw [if_neg hend]
          exact ih _ _ _ _ (hscan.next hh hlarge (hmid hend) (by omega) hgroup) (by omega) (by omega)
      | some first =>
        rw [hfound] at hgroup
        obtain ⟨hgroup, hleast⟩ := hgroup
        have hblock := group_block hh hpos hgroup
        have hempty : (empty && IsWholeBlockFree h (BitsArray page h) first) = IsWholeBlockFree h (BitsArray page h) first := by
          cases hflag : empty with
          | true => exact Bool.true_and _
          | false =>
            have hnot := hscan.part hflag
            rw [← hblock, ← IsWholeBlockFree_iff page hh, Bool.not_eq_true] at hnot
            rw [hnot, Bool.and_false]
        have hone : h.logFrags = 0 → blockFree page h (first / h.fragmentsPerBlock) := by
          intro hlog
          have hsize := hh.size
          rw [hlog] at hsize
          omega
        dsimp only
        rw [hempty]
        by_cases hsuits : Suits page h logged (first / h.fragmentsPerBlock)
        · rw [if_neg (fun hbad => (mismatch_iff hh hone).mp hbad hsuits), whole_eq hh]
          rw [hblock] at hsuits ⊢
          refine ⟨_, rfl, .inr ⟨_, first, rfl, ?_, hgroup, hleast, hsuits, hscan.before, rfl⟩⟩
          rw [Nat.div_lt_iff_lt_mul hh.pos, ← hbits]
          omega
        · rw [if_pos ((mismatch_iff hh hone).mpr hsuits)]
          rw [hblock] at hsuits
          have hge := hskip.ge
          exact ih _ _ _ _ (hscan.nextBlock hh hlarge hpos hskip (by omega) fun hq => hsuits hq.1) (by omega) (by omega)
    · rw [if_neg hin]
      refine ⟨_, rfl, .inl ⟨rfl, fun b hb => hscan.before b ?_⟩⟩
      have hle : h.blocksPerPage ≤ i * 8 / h.fragmentsPerBlock := by
        rw [Nat.le_div_iff_mul_le hh.pos, ← hbits]
        omega
      omega

theorem first_shows (page : bitmapPage) (h : allocationData) (start : ℕ) :
    Shows page h start (start >>> 3) (if start &&& 7 ≠ 0 then (BitsArray page h (start >>> 3)).toNat ||| ((1 <<< (start &&& 7)) - 1)
      else (BitsArray page h (start >>> 3)).toNat) := by
  have hbyte : start >>> 3 = start / 8 := Nat.shiftRight_eq_div_pow start 3
  have hbit : start &&& 7 = start % 8 := Nat.and_two_pow_sub_one_eq_mod start 3
  rw [hbyte, hbit]
  split_ifs with hmid
  · exact .first rfl
  · exact .later (by omega)

theorem GroupAt.start_le (hpos : 1 ≤ n) {first : ℕ} (hg : GroupAt page h start n b first) : start ≤ first := (hg.run 0 hpos).1

theorem FindFrags_found (hh : h.Formatted) (hpage : page.fragmentsPerBlock = h.fragmentsPerBlock) (logged : Bool)
    (hpos : 1 ≤ n) (hn : n ≤ h.fragmentsPerBlock) (hint : Option allocationHint) :
    ∃ result, FindFrags page h (kind logged) n hint = some result ∧
      FragsFound page h logged ((hint.map allocationHint.start).getD 0) n result := by
  generalize hstart : (hint.map allocationHint.start).getD 0 = start
  have hbits := hh.bits
  have hbyte : start >>> 3 = start / 8 := Nat.shiftRight_eq_div_pow start 3
  rw [FindFrags, hstart, hpage, if_neg (not_not.mpr hn)]
  by_cases hoff : hint.isSome ∧ h.blocksPerPage * h.fragmentsPerBlock ≤ start
  · rw [if_pos hoff]
    refine ⟨_, rfl, .inl ⟨rfl, ?_⟩⟩
    rintro b hb ⟨_, first, hg⟩
    have hafter := hg.start_le hpos
    have hends := hg.ends
    have hmul := Nat.mul_le_mul_right h.fragmentsPerBlock (show b + 1 ≤ h.blocksPerPage from hb)
    omega
  · rw [if_neg hoff]
    have hs := first_shows page h start
    by_cases hsmall : h.fragmentsPerBlock ≤ 8
    · simp only [if_pos hsmall]
      refine findInByte_found hh hsmall hpos hn _ _ _ (hs.scan ?_) (by omega) (by omega)
      rintro b hb ⟨_, first, hg⟩
      have hafter := hg.start_le hpos
      have hplace := (group_within (hh.small hsmall) hpos hg.begins hg.ends).1
      omega
    · simp only [if_neg hsmall]
      obtain ⟨hbegins, _⟩ := byte_in_block hh (by omega) (start >>> 3)
      refine findAcross_found hh (by omega) hpos _ _ _ _ _ ⟨hs, .blank hbegins ?_, ?_, ?_, ?_⟩ (by omega) (by omega)
      · intro _ hopen
        have hafter := hopen.1
        omega
      · intro first hg hle
        have hafter := hg.start_le hpos
        omega
      · rintro b hb ⟨_, first, hg⟩
        have hafter := hg.start_le hpos
        have hends := hg.ends
        have hmul := Nat.mul_le_mul_right h.fragmentsPerBlock (show b + 1 ≤ _ from hb)
        omega
      · intro hflag
        cases hflag

end dce.episode.bitmap
