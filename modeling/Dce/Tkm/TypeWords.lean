import Dce.Tkm.Hyper

namespace dce.tkm

def TokenType.number : TokenType → ℕ
  | TKM_LOCK_READ => 0
  | TKM_LOCK_WRITE => 1
  | TKM_DATA_READ => 2
  | TKM_DATA_WRITE => 3
  | TKM_OPEN_READ => 4
  | TKM_OPEN_WRITE => 5
  | TKM_OPEN_SHARED => 6
  | TKM_OPEN_EXCLUSIVE => 7
  | TKM_OPEN_DELETE => 8
  | TKM_OPEN_PRESERVE => 9
  | TKM_STATUS_READ => 10
  | TKM_STATUS_WRITE => 11
  | TKM_NUKE => 12
  | TKM_SPOT_HERE => 13
  | TKM_SPOT_THERE => 14

def TKM_ALL_TOKENS : ℕ := 15

theorem TokenType.number_lt (a : TokenType) : a.number < TKM_ALL_TOKENS := by
  revert a
  decide

theorem TokenType.number_inj {a b : TokenType} (heq : a.number = b.number) : a = b := by
  revert a b
  decide

theorem TokenType.exists_number : ∀ n < TKM_ALL_TOKENS, ∃ a : TokenType, a.number = n := by
  decide

namespace word

/-- The memory from the start of `ctable` on, with the bytes behind the table. -/
abbrev CtableMemory := ℕ → BitVec 8

/-- The place of `ctable[i][j]`, which with `j` past the end of its row is a place in the next row. -/
def place (i j : ℕ) : ℕ := i * TKM_ALL_TOKENS + j

/-- The loop of `tkm_InitConflictTable` over the pairs. -/
def enterPairs : List (TokenType × TokenType) → CtableMemory → CtableMemory
  | [], memory => memory
  | (a, b) :: pairs, memory =>
    enterPairs pairs (Function.update (Function.update memory (place b.number a.number) 1) (place a.number b.number) 1)

/-- `ctable` after the first part of `tkm_InitConflictTable`. -/
def ctable (beyond : CtableMemory) : CtableMemory :=
  enterPairs conflict fun n => if n < TKM_ALL_TOKENS * TKM_ALL_TOKENS then 0 else beyond n

variable (beyond : CtableMemory)

/-- The loop over the tokens that one type may conflict with. -/
def rowUnion (onion : BitVec 32) (j : ℕ) : ℕ → BitVec 32
  | 0 => onion
  | k + 1 =>
    let onion := rowUnion onion j k
    if ctable beyond (place j k) ≠ 0 then onion ||| 1#32 <<< k else onion

/-- The loop over the 8 types of a pattern, from type number `first` on. -/
def patternUnion (first i : ℕ) : ℕ → BitVec 32
  | 0 => 0
  | j + 1 =>
    let onion := patternUnion first i j
    if i.testBit j then rowUnion beyond onion (j + first) 16 else onion

/-- `tkm_ctable0[i]`, a `short`. -/
def tkm_ctable0 (i : ℕ) : BitVec 16 := (patternUnion beyond 0 i 8).setWidth 16

/-- `tkm_ctable1[i]`. -/
def tkm_ctable1 (i : ℕ) : BitVec 16 := (patternUnion beyond 8 i 8).setWidth 16

def TKM_TYPE_CONFLICTS (t : BitVec 32) : BitVec 32 :=
  (tkm_ctable0 beyond (t &&& 0xFF).toNat).signExtend 32 |||
    (tkm_ctable1 beyond ((t.sshiftRight 8) &&& 0xFF).toNat).signExtend 32

def TKM_TYPES_WITH_RANGE (t : BitVec 32) : BitVec 32 := t &&& 0xF

def TKM_TYPES_WITHOUT_RANGE (t : BitVec 32) : BitVec 32 := t &&& ~~~0xF

/-! What the table has -/

theorem enterPairs_iff {pairs : List (TokenType × TokenType)} {memory : CtableMemory} {n : ℕ} :
    enterPairs pairs memory n ≠ 0 ↔ memory n ≠ 0 ∨
      ∃ pair ∈ pairs, n = place pair.1.number pair.2.number ∨ n = place pair.2.number pair.1.number := by
  induction pairs generalizing memory with
  | nil => simp [enterPairs]
  | cons pair pairs ih =>
    obtain ⟨a, b⟩ := pair
    rw [enterPairs, ih]
    by_cases hab : n = place a.number b.number
    · simp [hab]
    · by_cases hba : n = place b.number a.number
      · subst hba
        simp [hab]
      · simp [hab, hba]

theorem place_inj {a b c d : TokenType} (heq : place a.number b.number = place c.number d.number) : a = c ∧ b = d := by
  have hb := b.number_lt
  have hd := d.number_lt
  rw [place, place] at heq
  rw [TKM_ALL_TOKENS] at heq hb hd
  exact ⟨TokenType.number_inj (by omega), TokenType.number_inj (by omega)⟩

theorem ctable_iff (a b : TokenType) : ctable beyond (place a.number b.number) ≠ 0 ↔ tkm.ctable a b = true := by
  have ha := a.number_lt
  have hb := b.number_lt
  have hin : place a.number b.number < TKM_ALL_TOKENS * TKM_ALL_TOKENS := by
    rw [TKM_ALL_TOKENS] at ha hb
    rw [place, TKM_ALL_TOKENS]
    omega
  rw [ctable, enterPairs_iff, if_pos hin, tkm.ctable, Bool.or_eq_true, List.contains_iff_mem, List.contains_iff_mem]
  constructor
  · rintro (habs | ⟨⟨c, d⟩, hmem, heq | heq⟩)
    · exact absurd rfl habs
    · obtain ⟨rfl, rfl⟩ := place_inj heq
      exact .inl hmem
    · obtain ⟨rfl, rfl⟩ := place_inj heq
      exact .inr hmem
  · rintro (hmem | hmem)
    · exact .inr ⟨(a, b), hmem, .inl rfl⟩
    · exact .inr ⟨(b, a), hmem, .inr rfl⟩

theorem rowUnion_bit {onion : BitVec 32} {j n b : ℕ} (hn : n ≤ 16) : (rowUnion beyond onion j n).getLsbD b = true ↔
    onion.getLsbD b = true ∨ (b < n ∧ ctable beyond (place j b) ≠ 0) := by
  induction n with
  | zero => simp [rowUnion]
  | succ k ih =>
    specialize ih (Nat.le_of_succ_le hn)
    have hbit : (1#32 <<< k).getLsbD b = true ↔ b = k := by
      rw [← BitVec.twoPow_eq, BitVec.getLsbD_twoPow, Bool.and_eq_true, decide_eq_true_eq, decide_eq_true_eq]
      omega
    rw [rowUnion]
    by_cases hset : ctable beyond (place j k) ≠ 0
    · simp only [if_pos hset, BitVec.getLsbD_or, Bool.or_eq_true, ih, hbit]
      constructor
      · rintro ((hin | ⟨hlt, hbit⟩) | rfl)
        · exact .inl hin
        · exact .inr ⟨hlt.trans (Nat.lt_succ_self k), hbit⟩
        · exact .inr ⟨Nat.lt_succ_self b, hset⟩
      · rintro (hin | ⟨hlt, hbit⟩)
        · exact .inl (.inl hin)
        · obtain hlt | rfl := Nat.lt_succ_iff_lt_or_eq.mp hlt
          · exact .inl (.inr ⟨hlt, hbit⟩)
          · exact .inr rfl
    · simp only [if_neg hset, ih]
      refine or_congr_right (and_congr_left fun hentry => ?_)
      have hne : b ≠ k := by
        rintro rfl
        exact hset hentry
      omega

theorem patternUnion_bit {first i n b : ℕ} : (patternUnion beyond first i n).getLsbD b = true ↔
    ∃ j < n, i.testBit j = true ∧ b < 16 ∧ ctable beyond (place (j + first) b) ≠ 0 := by
  induction n with
  | zero => simp [patternUnion]
  | succ j ih =>
    rw [patternUnion]
    by_cases hours : i.testBit j = true
    · simp only [if_pos hours, rowUnion_bit beyond (le_refl 16), ih]
      constructor
      · rintro (⟨j', hlt, hrest⟩ | hrest)
        · exact ⟨j', hlt.trans (Nat.lt_succ_self j), hrest⟩
        · exact ⟨j, Nat.lt_succ_self j, hours, hrest⟩
      · rintro ⟨j', hlt, htest, hrest⟩
        obtain hlt | rfl := Nat.lt_succ_iff_lt_or_eq.mp hlt
        · exact .inl ⟨j', hlt, htest, hrest⟩
        · exact .inr hrest
    · simp only [if_neg hours, ih]
      constructor
      · rintro ⟨j', hlt, hrest⟩
        exact ⟨j', hlt.trans (Nat.lt_succ_self j), hrest⟩
      · rintro ⟨j', hlt, htest, hrest⟩
        obtain hlt | rfl := Nat.lt_succ_iff_lt_or_eq.mp hlt
        · exact ⟨j', hlt, htest, hrest⟩
        · exact absurd htest hours

theorem byte_testBit (t : BitVec 32) {j : ℕ} (hj : j < 8) : (t &&& 0xFF).toNat.testBit j = t.getLsbD j := by
  have hmask : ∀ j < 8, (0xFF : BitVec 32).getLsbD j = true := by
    decide
  rw [BitVec.testBit_toNat, BitVec.getLsbD_and, hmask j hj, Bool.and_true]

theorem conflicts_bit {t : BitVec 32} {b : ℕ} (hb : b < TKM_ALL_TOKENS) : (TKM_TYPE_CONFLICTS beyond t).getLsbD b = true ↔
    ∃ a < 16, t.getLsbD a = true ∧ ctable beyond (place a b) ≠ 0 := by
  rw [TKM_ALL_TOKENS] at hb
  have hlow : b < 16 := hb.trans (by omega)
  have hword (w : BitVec 32) : ((w.setWidth 16).signExtend 32).getLsbD b = w.getLsbD b := by
    rw [BitVec.getLsbD_signExtend, BitVec.getLsbD_setWidth]
    simp [hlow, hlow.trans (show 16 < 32 by omega)]
  have hshift (j : ℕ) (hj : j < 8) : (t.sshiftRight 8).getLsbD j = t.getLsbD (j + 8) := by
    rw [BitVec.getLsbD_sshiftRight, if_pos (by omega), Nat.add_comm]
    simp [show j < 32 by omega]
  rw [TKM_TYPE_CONFLICTS, BitVec.getLsbD_or, Bool.or_eq_true, tkm_ctable0, tkm_ctable1, hword, hword, patternUnion_bit,
    patternUnion_bit]
  constructor
  · rintro (⟨j, hj, htest, -, hentry⟩ | ⟨j, hj, htest, -, hentry⟩)
    · rw [byte_testBit _ hj] at htest
      exact ⟨j, hj.trans (by omega), htest, hentry⟩
    · rw [byte_testBit _ hj, hshift j hj] at htest
      exact ⟨j + 8, by omega, htest, hentry⟩
  · rintro ⟨a, ha, hbit, hentry⟩
    by_cases hfirst : a < 8
    · exact .inl ⟨a, hfirst, (byte_testBit _ hfirst).trans hbit, hlow, hentry⟩
    · obtain ⟨j, rfl⟩ : ∃ j, a = j + 8 := ⟨a - 8, by omega⟩
      have hj : j < 8 := by omega
      exact .inr ⟨j, hj, (byte_testBit _ hj).trans ((hshift j hj).trans hbit), hlow, hentry⟩

/-! Words as sets of types -/

/-- A word is the bit mask of a set of types. -/
structure Denotes (w : BitVec 32) (types : Types) : Prop where
  lt : w.toNat < 2 ^ TKM_ALL_TOKENS
  bit_iff : ∀ a : TokenType, w.getLsbD a.number = true ↔ a ∈ types

def typesOf (w : BitVec 32) : Types := Finset.univ.filter fun a => w.getLsbD a.number = true

theorem denotes_typesOf {w : BitVec 32} (hlt : w.toNat < 2 ^ TKM_ALL_TOKENS) : Denotes w (typesOf w) :=
  ⟨hlt, fun a => by simp [typesOf]⟩

theorem denotes_zero : Denotes 0 ∅ := ⟨by decide, fun a => by simp⟩

namespace Denotes

variable {w v : BitVec 32} {types types' : Types}

variable (hw : Denotes w types)

include hw

theorem bit_lt {n : ℕ} (hbit : w.getLsbD n = true) : n < TKM_ALL_TOKENS := by
  by_contra hge
  have hfalse : w.getLsbD n = false :=
    Nat.testBit_lt_two_pow (hw.lt.trans_le (Nat.pow_le_pow_right (by omega) (Nat.le_of_not_lt hge)))
  rw [hfalse] at hbit
  cases hbit

theorem eq_zero_iff : w = 0 ↔ types = ∅ := by
  constructor
  · rintro rfl
    refine Finset.eq_empty_of_forall_notMem fun a ha => ?_
    have hbit := (hw.bit_iff a).mpr ha
    simp at hbit
  · rintro rfl
    refine BitVec.eq_of_getLsbD_eq fun n _ => ?_
    by_contra hbit
    have hbit : w.getLsbD n = true := by simpa using hbit
    obtain ⟨a, rfl⟩ := TokenType.exists_number n (hw.bit_lt hbit)
    have ha := (hw.bit_iff a).mp hbit
    simp at ha

theorem inter (hbit : ∀ a : TokenType, v.getLsbD a.number = true ↔ a ∈ types') : Denotes (w &&& v) (types ∩ types') where
  lt := (BitVec.toNat_and w v).symm ▸ Nat.and_le_left.trans_lt hw.lt
  bit_iff a := by
    rw [BitVec.getLsbD_and, Bool.and_eq_true, hw.bit_iff, hbit, Finset.mem_inter]

theorem withRange : Denotes (TKM_TYPES_WITH_RANGE w) (tkm.TKM_TYPES_WITH_RANGE types) where
  lt := (BitVec.toNat_and w 0xF).symm ▸ Nat.and_le_left.trans_lt hw.lt
  bit_iff a := by
    have hmask : ∀ a : TokenType, (0xF : BitVec 32).getLsbD a.number = ranged a := by
      decide
    rw [TKM_TYPES_WITH_RANGE, BitVec.getLsbD_and, hmask, Bool.and_eq_true, hw.bit_iff, mem_withRange]

theorem withoutRange : Denotes (TKM_TYPES_WITHOUT_RANGE w) (tkm.TKM_TYPES_WITHOUT_RANGE types) where
  lt := (BitVec.toNat_and w (~~~0xF)).symm ▸ Nat.and_le_left.trans_lt hw.lt
  bit_iff a := by
    have hmask : ∀ a : TokenType, (~~~0xF : BitVec 32).getLsbD a.number = !ranged a := by
      decide
    rw [TKM_TYPES_WITHOUT_RANGE, BitVec.getLsbD_and, hmask, Bool.and_eq_true, hw.bit_iff, mem_withoutRange,
      Bool.not_eq_true']

theorem conflicts_bit_iff (a : TokenType) :
    (TKM_TYPE_CONFLICTS beyond w).getLsbD a.number = true ↔ a ∈ tkm.TKM_TYPE_CONFLICTS types := by
  rw [conflicts_bit beyond a.number_lt, mem_conflicts]
  constructor
  · rintro ⟨n, -, hbit, hentry⟩
    obtain ⟨b, rfl⟩ := TokenType.exists_number n (hw.bit_lt hbit)
    exact ⟨b, (hw.bit_iff b).mp hbit, (ctable_iff beyond b a).mp hentry⟩
  · rintro ⟨b, hb, hpair⟩
    exact ⟨b.number, b.number_lt.trans (by decide), (hw.bit_iff b).mpr hb, (ctable_iff beyond b a).mpr hpair⟩

theorem inter_conflicts (hv : Denotes v types') :
    Denotes (w &&& TKM_TYPE_CONFLICTS beyond v) (types ∩ tkm.TKM_TYPE_CONFLICTS types') :=
  hw.inter fun a => hv.conflicts_bit_iff beyond a

end Denotes

end word

end dce.tkm
