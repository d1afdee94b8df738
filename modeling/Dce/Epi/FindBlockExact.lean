import Dce.Epi.BlockState

open lib

namespace dce.episode.bitmap

variable {page : bitmapPage} {h : allocationData} {start i bits : ℕ}

/-- A fragment that is free and not before the place where a search starts. -/
def Open (page : bitmapPage) (h : allocationData) (start k : ℕ) : Prop := start ≤ k ∧ fragFree page h k

/-- A byte as the search sees it: what lies before its start is masked out. -/
structure Shows (page : bitmapPage) (h : allocationData) (start i bits : ℕ) : Prop where
  lt : bits < 256
  clear_iff : ∀ j < 8, Clear bits j ↔ Open page h start (i * 8 + j)

theorem clear_or_mask_iff (x n p j : ℕ) : Clear (x ||| ((1 <<< n) - 1) <<< p) j ↔ Clear x j ∧ ¬(p ≤ j ∧ j < p + n) := by
  rw [Clear, Clear, Nat.testBit_or, Nat.testBit_shiftLeft, Nat.one_shiftLeft, Nat.testBit_two_pow_sub_one,
    Bool.or_eq_false_iff, ← Bool.decide_and, decide_eq_false_iff_not]
  exact and_congr_right fun _ => not_congr (by omega)

namespace Shows

theorem later (hle : start ≤ i * 8) : Shows page h start i (BitsArray page h i).toNat where
  lt := (BitsArray page h i).isLt
  clear_iff j hj := by
    rw [Open, fragFree_byte page h i hj]
    exact ⟨fun hclear => ⟨by omega, hclear⟩, fun hopen => hopen.2⟩

theorem first (hi : i = start / 8) :
    Shows page h start i ((BitsArray page h i).toNat ||| ((1 <<< (start % 8)) - 1)) where
  lt := Nat.or_lt_two_pow (BitsArray page h i).isLt (mask_lt (p := 0) (by omega))
  clear_iff j hj := by
    have hmask := clear_or_mask_iff (BitsArray page h i).toNat (start % 8) 0 j
    rw [Nat.shiftLeft_zero] at hmask
    rw [hmask, Open, fragFree_byte page h i hj, and_comm]
    exact and_congr_left fun _ => by omega

theorem run_iff (hs : Shows page h start i bits) {p n : ℕ} (hend : p + n ≤ 8) :
    Run (Open page h start) (i * 8 + p) n ↔ Run (Clear bits) p n := by
  constructor
  · intro hrun k hk
    have hplace := hrun k hk
    rw [Nat.add_assoc] at hplace
    exact (hs.clear_iff (p + k) (by omega)).mpr hplace
  · intro hrun k hk
    rw [Nat.add_assoc]
    exact (hs.clear_iff (p + k) (by omega)).mp (hrun k hk)

end Shows

theorem fragField_ok (hh : h.Formatted) {n : ℕ} (hbits : bits < 256) (hpos : 1 ≤ n) (hn : n ≤ min h.fragmentsPerBlock 8) :
    FieldOk (min h.fragmentsPerBlock 8) bits n (fragField h ((n - 1) * 4) bits) := by
  rw [fragField, hh.search]
  refine fragSearchTable_ok ?_ hbits hpos hn
  rcases hh.cases with (hsize | hsize | hsize | hsize) | hsize | hsize | hsize <;> rw [hsize] <;> decide

theorem block_open_iff (hpos : 0 < h.fragmentsPerBlock) (b : ℕ) :
    Run (Open page h start) (b * h.fragmentsPerBlock) h.fragmentsPerBlock ↔
      start ≤ b * h.fragmentsPerBlock ∧ blockFree page h b :=
  ⟨fun hrun => ⟨(hrun 0 hpos).1, fun k hk => (hrun k hk).2⟩, fun hfree k hk => ⟨by omega, hfree.2 k hk⟩⟩

theorem findSome?_range {α : Type} {f : ℕ → Option α} {count : ℕ} {x : α} (hfound : (List.range count).findSome? f = some x) :
    ∃ i < count, f i = some x ∧ ∀ j < i, f j = none := by
  induction count with
  | zero => cases hfound
  | succ count ih =>
    rw [List.range_succ, List.findSome?_append] at hfound
    cases hbefore : (List.range count).findSome? f with
    | some y =>
      rw [hbefore] at hfound ih
      obtain ⟨i, hi, hrest⟩ := ih hfound
      exact ⟨i, by omega, hrest⟩
    | none =>
      have hnone := List.findSome?_eq_none_iff.mp hbefore
      rw [hbefore, Option.none_or, List.findSome?_singleton] at hfound
      exact ⟨count, by omega, hfound, fun j hj => hnone j (List.mem_range.mpr hj)⟩

/-- What a search for a whole block answers: the first one from the start on, as its first fragment. -/
def FirstBlock (page : bitmapPage) (h : allocationData) (start : ℕ) : Option ℕ → Prop
  | none => ∀ b, start ≤ b → b < h.blocksPerPage → ¬blockFree page h b
  | some bit => ∃ b, bit = b * h.fragmentsPerBlock ∧ start ≤ b ∧ b < h.blocksPerPage ∧ blockFree page h b ∧
      ∀ b', start ≤ b' → b' < b → ¬blockFree page h b'

theorem block_within {m : ℕ} (hm : m = 1 ∨ m = 2 ∨ m = 4 ∨ m = 8) (b : ℕ) :
    b * m / 8 * 8 + b * m % 8 = b * m ∧ Within m (b * m % 8) m := by
  rcases hm with rfl | rfl | rfl | rfl <;> refine ⟨by omega, by omega, by omega⟩

theorem block_of_within {m p : ℕ} (hm : m = 1 ∨ m = 2 ∨ m = 4 ∨ m = 8) (hp : Within m p m) (i : ℕ) :
    i * 8 + p = (i * 8 + p) / m * m ∧ (i * 8 + p) / m * m / 8 = i := by
  obtain ⟨hend, hsame⟩ := hp
  rcases hm with rfl | rfl | rfl | rfl <;> refine ⟨by omega, by omega⟩

/-- What one step of the search has to say about the blocks that belong to it. -/
def FirstOf (page : bitmapPage) (h : allocationData) (start : ℕ) (unit : ℕ → ℕ) (i : ℕ) : Option ℕ → Prop
  | none => ∀ b, start ≤ b → unit b = i → ¬blockFree page h b
  | some bit => ∃ b, bit = b * h.fragmentsPerBlock ∧ start ≤ b ∧ unit b = i ∧ blockFree page h b ∧
      ∀ b', start ≤ b' → b' < b → unit b' = i → ¬blockFree page h b'

theorem firstBlock_of_steps {unit f : ℕ → ℕ} {answer : ℕ → Option ℕ} {first last : ℕ} (hmono : Monotone unit)
    (hfirst : unit start = first) (hlast : ∀ b, b < h.blocksPerPage ↔ unit b < last)
    (hf : ∀ k, f k = first + k) (hstep : ∀ k, FirstOf page h start unit (f k) (answer (f k))) :
    FirstBlock page h start (((List.range (last - first)).map f).findSome? answer) := by
  have hunit : ∀ b, start ≤ b → ∃ k, unit b = f k ∧ k = unit b - first := by
    intro b hle
    have hge := hmono hle
    exact ⟨unit b - first, by rw [hf]; omega, rfl⟩
  rw [List.findSome?_map]
  cases hfound : (List.range (last - first)).findSome? (answer ∘ f) with
  | none =>
    intro b hle hlt hfree
    obtain ⟨k, hk, hsub⟩ := hunit b hle
    have hin := (hlast b).mp hlt
    have hge := hmono hle
    have hnone := List.findSome?_eq_none_iff.mp hfound k (List.mem_range.mpr (by omega))
    have hans := hstep k
    rw [show answer (f k) = none from hnone] at hans
    exact hans b hle hk hfree
  | some bit =>
    obtain ⟨k, hk, hsome, hbefore⟩ := findSome?_range hfound
    have hans := hstep k
    rw [show answer (f k) = some bit from hsome] at hans
    obtain ⟨b, hbit, hle, hub, hfree, hleast⟩ := hans
    refine ⟨b, hbit, hle, (hlast b).mpr ?_, hfree, ?_⟩
    · rw [hub, hf]
      omega
    · intro b' hle' hlt' hfree'
      obtain ⟨k', hk', hsub'⟩ := hunit b' hle'
      rcases Nat.lt_or_ge k' k with hprev | hsame
      · have hans' := hstep k'
        rw [show answer (f k') = none from hbefore k' hprev] at hans'
        exact hans' b' hle' hk' hfree'
      · refine hleast b' hle' hlt' ?_ hfree'
        have hupper := hmono (Nat.le_of_lt hlt')
        rw [hub, hk', hf, hf] at hupper
        rw [hk', show k' = k from by omega]

theorem block_in_byte (hh : h.Formatted) (hsmall : h.fragmentsPerBlock ≤ 8)
    (hs : Shows page h (start * h.fragmentsPerBlock) i bits) {found : ℕ}
    (hfound : found = fragField h ((h.fragmentsPerBlock - 1) * 4) bits) :
    FirstOf page h start (· * h.fragmentsPerBlock / 8) i (if found ≠ 0 then some (i * 8 + (found &&& 7)) else none) := by
  have hm := hh.small hsmall
  have hfield := fragField_ok hh hs.lt hh.pos (le_min le_rfl hsmall)
  rw [Nat.min_eq_left hsmall, ← hfound] at hfield
  have hrun : ∀ b, start ≤ b → b * h.fragmentsPerBlock / 8 = i → blockFree page h b →
      Within h.fragmentsPerBlock (b * h.fragmentsPerBlock % 8) h.fragmentsPerBlock ∧
        Run (Clear bits) (b * h.fragmentsPerBlock % 8) h.fragmentsPerBlock := by
    intro b hstart hbyte hfree
    obtain ⟨hplace, hwithin⟩ := block_within hm b
    rw [hbyte] at hplace
    refine ⟨hwithin, (hs.run_iff hwithin.1).mp ?_⟩
    rw [hplace]
    exact (block_open_iff hh.pos b).mpr ⟨Nat.mul_le_mul_right _ hstart, hfree⟩
  by_cases hzero : found = 0
  · rw [if_neg (not_not.mpr hzero)]
    intro b hstart hbyte hfree
    obtain ⟨hwithin, hclear⟩ := hrun b hstart hbyte hfree
    exact hfield.1 hzero _ (Nat.mod_lt _ (by decide)) hwithin hclear
  · rw [if_pos hzero]
    obtain ⟨hwithin, hclear, hfirst⟩ := hfield.2 hzero
    obtain ⟨hplace, hbyte⟩ := block_of_within hm hwithin i
    have hopen := (hs.run_iff hwithin.1).mpr hclear
    rw [hplace] at hopen
    obtain ⟨hstart, hfree⟩ := (block_open_iff hh.pos _).mp hopen
    refine ⟨_, hplace, Nat.le_of_mul_le_mul_right hstart hh.pos, hbyte, hfree, ?_⟩
    intro b' hstart' hlt hbyte' hfree'
    obtain ⟨hwithin', hclear'⟩ := hrun b' hstart' hbyte' hfree'
    refine hfirst _ ?_ hwithin' hclear'
    have hplace' := (block_within hm b').1
    have hmul := Nat.mul_lt_mul_of_pos_right hlt hh.pos
    have hsame : b' * h.fragmentsPerBlock / 8 = i := hbyte'
    rw [hsame] at hplace'
    omega

theorem skip_eq (hh : h.Formatted) (hsmall : h.fragmentsPerBlock < 8) (start : ℕ) :
    (if start ≠ 0 then start >>> (3 - h.logFrags) else 0) = start * h.fragmentsPerBlock / 8 ∧
      (if start ≠ 0 then (1 <<< ((start &&& ((1 <<< (3 - h.logFrags)) - 1)) <<< h.logFrags)) - 1 else 0) =
        (1 <<< (start * h.fragmentsPerBlock % 8)) - 1 := by
  have hlog : h.logFrags ≤ 2 := by
    have hsize := hh.size
    rw [Nat.one_shiftLeft] at hsize
    rw [hsize] at hsmall
    by_contra hlarge
    have hle : 2 ^ 3 ≤ 2 ^ h.logFrags := Nat.pow_le_pow_right (by decide) (by omega)
    omega
  have hand : start &&& ((1 <<< (3 - h.logFrags)) - 1) = start % 2 ^ (3 - h.logFrags) := by
    rw [Nat.one_shiftLeft]
    exact Nat.and_two_pow_sub_one_eq_mod start (3 - h.logFrags)
  have hplace : start / 2 ^ (3 - h.logFrags) = start * 2 ^ h.logFrags / 8 ∧
      start % 2 ^ (3 - h.logFrags) * 2 ^ h.logFrags = start * 2 ^ h.logFrags % 8 := by
    interval_cases h.logFrags <;> refine ⟨by omega, by omega⟩
  rw [hand, hh.size, Nat.one_shiftLeft h.logFrags, Nat.shiftLeft_eq (start % _), hplace.2]
  by_cases hzero : start = 0
  · simp [hzero]
  · rw [if_pos hzero, if_pos hzero, Nat.shiftRight_eq_div_pow]
    exact ⟨hplace.1, rfl⟩

theorem findBlockInBytes_first (hh : h.Formatted) (hpage : page.fragmentsPerBlock = h.fragmentsPerBlock)
    (hsmall : h.fragmentsPerBlock < 8) (start : ℕ) : FirstBlock page h start (findBlockInBytes page h start) := by
  obtain ⟨hbyte, hskip⟩ := skip_eq hh hsmall start
  rw [findBlockInBytes, hbyte, hskip, hpage]
  refine firstBlock_of_steps (fun b b' hle => Nat.div_le_div_right (Nat.mul_le_mul_right _ hle)) rfl ?_ (fun _ => rfl) ?_
  · intro b
    have hbits := hh.bits
    rw [Nat.div_lt_iff_lt_mul (by decide), hbits, Nat.mul_lt_mul_right hh.pos]
  · intro k
    refine block_in_byte hh (Nat.le_of_lt hsmall) ?_ rfl
    split_ifs with hk
    · exact .first hk
    · exact .later (by omega)

theorem findBlockOfBytes_first (hh : h.Formatted) (hlarge : 8 ≤ h.fragmentsPerBlock) (start : ℕ) :
    FirstBlock page h start (findBlockOfBytes page h start) := by
  have hbytes : h.fragmentsPerBlock >>> 3 * 8 = h.fragmentsPerBlock := by
    rw [Nat.shiftRight_eq_div_pow]
    rcases hh.cases with (hsize | hsize | hsize | hsize) | hsize | hsize | hsize <;> omega
  rw [findBlockOfBytes]
  generalize h.fragmentsPerBlock >>> 3 = bytesPerBlock at hbytes ⊢
  have hpos : 0 < bytesPerBlock := by omega
  have hcount : (h.bitsLength - start * bytesPerBlock + bytesPerBlock - 1) / bytesPerBlock = h.blocksPerPage - start := by
    have hlength : h.bitsLength = h.blocksPerPage * bytesPerBlock := by
      have hbits := hh.bits
      rw [← hbytes, ← Nat.mul_assoc] at hbits
      omega
    rw [hlength, ← Nat.sub_mul, Nat.add_sub_assoc hpos, Nat.mul_comm, Nat.mul_add_div hpos,
      Nat.div_eq_of_lt (by omega), Nat.add_zero]
  have hplaces : (List.range (h.blocksPerPage - start)).map (start * bytesPerBlock + · * bytesPerBlock) =
      ((List.range (h.blocksPerPage - start)).map (start + ·)).map (· * bytesPerBlock) := by
    rw [List.map_map]
    exact List.map_congr_left fun k _ => (Nat.add_mul start k bytesPerBlock).symm
  rw [hcount, hplaces, List.findSome?_map]
  refine firstBlock_of_steps monotone_id rfl (fun _ => Iff.rfl) (fun _ => rfl) fun k => ?_
  have hle : start ≤ start + k := Nat.le_add_right start k
  generalize start + k = b at hle ⊢
  have hfree : (List.range bytesPerBlock).all (fun j => decide ((BitsArray page h (b * bytesPerBlock + j)).toNat = 0)) = true ↔
      blockFree page h b := by
    have hzero := bytes_zero_iff page h (b * bytesPerBlock) bytesPerBlock
    rw [Nat.mul_assoc, hbytes] at hzero
    simp only [List.all_eq_true, List.mem_range, decide_eq_true_eq]
    exact hzero
  rw [Function.comp_apply]
  by_cases hall : blockFree page h b
  · rw [if_pos (hfree.mpr hall)]
    exact ⟨b, by rw [Nat.mul_assoc, hbytes], hle, rfl, hall, fun b' _ hlt heq => absurd heq hlt.ne⟩
  · rw [if_neg (fun hzero => hall (hfree.mp hzero))]
    rintro b' _ rfl
    exact hall

/-- The block that a search found, as its address. -/
structure BlockFound (page : bitmapPage) (h : allocationData) (start : ℕ) (block : ℤ) (b : ℕ) : Prop where
  address : block = page.baseOffset + b
  after : start ≤ b
  within : b < h.blocksPerPage
  free : blockFree page h b
  first : ∀ b', start ≤ b' → b' < b → ¬blockFree page h b'

theorem FindBlock_found (hh : h.Formatted) (hpage : page.fragmentsPerBlock = h.fragmentsPerBlock)
    {hint : Option allocationHint} (hhint : ∀ place ∈ hint, place.start < h.blocksPerPage) :
    ∃ block, FindBlock page h hint = some block ∧
      ((block = EPIX_ANODE_BLOCKEMPTY ∧ ∀ b, (hint.map allocationHint.start).getD 0 ≤ b → b < h.blocksPerPage →
          ¬blockFree page h b) ∨
        ∃ b, BlockFound page h ((hint.map allocationHint.start).getD 0) block b) := by
  generalize hstart : (hint.map allocationHint.start).getD 0 = start
  have hon : ¬(hint.isSome ∧ ¬start < h.blocksPerPage) := by
    cases hint with
    | none => simp
    | some place =>
      have hlt := hhint place rfl
      simp only [Option.map_some, Option.getD_some] at hstart
      simpa [hstart] using hlt
  have hfirst : FirstBlock page h start
      (if h.fragmentsPerBlock < 8 then findBlockInBytes page h start else findBlockOfBytes page h start) := by
    split_ifs with hsmall
    · exact findBlockInBytes_first hh hpage hsmall start
    · exact findBlockOfBytes_first hh (Nat.le_of_not_lt hsmall) start
  rw [FindBlock, hstart, if_neg hon]
  cases hbit : (if h.fragmentsPerBlock < 8 then findBlockInBytes page h start else findBlockOfBytes page h start) with
  | none =>
    rw [hbit] at hfirst
    exact ⟨_, rfl, .inl ⟨rfl, hfirst⟩⟩
  | some bit =>
    rw [hbit] at hfirst
    obtain ⟨b, rfl, hafter, hwithin, hfree, hleast⟩ := hfirst
    refine ⟨page.baseOffset + b, ?_, .inr ⟨b, rfl, hafter, hwithin, hfree, hleast⟩⟩
    simp only [hh.shiftRight, Nat.mul_div_cancel b hh.pos]

end dce.episode.bitmap
