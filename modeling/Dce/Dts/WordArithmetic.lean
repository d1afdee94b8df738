import Dce.Dts.SignedDivision

namespace dce.dts

structure unsigned128 where
  lolo : BitVec 32
  lohi : BitVec 32
  hilo : BitVec 32
  hihi : BitVec 32
  deriving DecidableEq, Repr

def unsigned128.toNat (a : unsigned128) : ℕ :=
  a.hihi.toNat * 2 ^ 96 + a.hilo.toNat * 2 ^ 64 + a.lohi.toNat * 2 ^ 32 + a.lolo.toNat

/-- `ueemul`, where the carried words are added by `UTCiAdd`, which takes a signed number. -/
def ueemul (u v : unsigned64) : unsigned128 :=
  let temp := uemul u.lo v.lo
  let lolo := temp.lo
  let temp2 := U64IADD (uemul u.hi v.lo) temp.hi
  let hilo := temp2.hi
  let temp := U64IADD (uemul u.lo v.hi) temp2.lo
  let lohi := temp.lo
  let temp2 := U64IADD (U64IADD (uemul u.hi v.hi) temp.hi) hilo
  { lolo, lohi, hilo := temp2.lo, hihi := temp2.hi }

def storeHi {κ : Type} [DecidableEq κ] (m : κ → unsigned64) (quot : κ) (hi : BitVec 32) : κ → unsigned64 :=
  Function.update m quot { m quot with hi }

def storeLo {κ : Type} [DecidableEq κ] (m : κ → unsigned64) (quot : κ) (lo : BitVec 32) : κ → unsigned64 :=
  Function.update m quot { m quot with lo }

/-- `U64IDIV` store by store, where the place of the quotient may be that of the dividend. -/
def U64IDIV_stores {κ : Type} [DecidableEq κ] (m : κ → unsigned64) (dividend quot : κ) (I : BitVec 32) :
    Option ((κ → unsigned64) × BitVec 32) := do
  let negDividend : Bool := decide ((m dividend).hi &&& SIGN ≠ 0)
  let intermed2 := if negDividend then -(m dividend).lo else (m dividend).lo
  let intermed :=
    if negDividend then (if intermed2 = 0 then ~~~(m dividend).hi + 1 else ~~~(m dividend).hi) else (m dividend).hi
  let divisor := if I.slt 0 then -I else I
  let (hi, rest) ← uediv { hi := 0, lo := intermed } divisor
  let m := storeHi m quot hi
  let (lo, remd) ← uediv { hi := rest, lo := intermed2 } divisor
  let m := storeLo m quot lo
  let negQuot := negDividend ^^ I.slt 0
  let m := if negQuot then storeHi m quot (~~~(m quot).hi) else m
  let m := if negQuot then storeLo m quot (-(m quot).lo) else m
  let m := if negQuot && (m quot).lo = 0 then storeHi m quot ((m quot).hi + 1) else m
  some (m, if negDividend then -remd else remd)

/-! Signed additions of words -/

variable {a b u v : unsigned64} {d : BitVec 32}

theorem toNat_U64IADD (x : unsigned64) (I : BitVec 32) :
    (U64IADD x I).value.toNat =
      (x.value.toNat + I.toNat + if I.toNat < 2 ^ 31 then 0 else 2 ^ 64 - 2 ^ 32) % 2 ^ 64 := by
  have hI := I.isLt
  rw [value_U64IADD, UTCiAdd, BitVec.toNat_add, BitVec.toNat_ofInt, BitVec.toInt_eq_toNat_cond]
  split_ifs <;> omega

theorem words_toNat (x : unsigned64) : x.hi.toNat = x.value.toNat / 2 ^ 32 ∧ x.lo.toNat = x.value.toNat % 2 ^ 32 := by
  have hlo := x.lo.isLt
  rw [toNat_value]
  omega

/-- The words that `ueemul` carries, as they are in the exact product. -/
structure CarriesFit (u v : unsigned64) : Prop where
  lowest : u.lo.toNat * v.lo.toNat / 2 ^ 32 < 2 ^ 31
  second : (u.hi.toNat * v.lo.toNat + u.lo.toNat * v.lo.toNat / 2 ^ 32) % 2 ^ 32 < 2 ^ 31
  third : (u.lo.toNat * v.hi.toNat + (u.hi.toNat * v.lo.toNat + u.lo.toNat * v.lo.toNat / 2 ^ 32) % 2 ^ 32) / 2 ^ 32 < 2 ^ 31
  highest : (u.hi.toNat * v.lo.toNat + u.lo.toNat * v.lo.toNat / 2 ^ 32) / 2 ^ 32 < 2 ^ 31

theorem product_le (x y : BitVec 32) : x.toNat * y.toNat ≤ (2 ^ 32 - 1) * (2 ^ 32 - 1) :=
  Nat.mul_le_mul (Nat.le_sub_one_of_lt x.isLt) (Nat.le_sub_one_of_lt y.isLt)

theorem ueemul_exact_iff (u v : unsigned64) : (ueemul u v).toNat = u.value.toNat * v.value.toNat ↔ CarriesFit u v := by
  have hproduct : u.value.toNat * v.value.toNat = u.hi.toNat * v.hi.toNat * 2 ^ 64 +
      (u.hi.toNat * v.lo.toNat + u.lo.toNat * v.hi.toNat) * 2 ^ 32 + u.lo.toNat * v.lo.toNat := by
    rw [toNat_value, toNat_value]
    ring
  have hfits : CarriesFit u v ↔ u.lo.toNat * v.lo.toNat / 2 ^ 32 < 2 ^ 31 ∧
      (u.hi.toNat * v.lo.toNat + u.lo.toNat * v.lo.toNat / 2 ^ 32) % 2 ^ 32 < 2 ^ 31 ∧
      (u.lo.toNat * v.hi.toNat + (u.hi.toNat * v.lo.toNat + u.lo.toNat * v.lo.toNat / 2 ^ 32) % 2 ^ 32) / 2 ^ 32 < 2 ^ 31 ∧
      (u.hi.toNat * v.lo.toNat + u.lo.toNat * v.lo.toNat / 2 ^ 32) / 2 ^ 32 < 2 ^ 31 :=
    ⟨fun h => ⟨h.lowest, h.second, h.third, h.highest⟩, fun h => ⟨h.1, h.2.1, h.2.2.1, h.2.2.2⟩⟩
  have hll := product_le u.lo v.lo
  have hhl := product_le u.hi v.lo
  have hlh := product_le u.lo v.hi
  have hhh := product_le u.hi v.hi
  obtain ⟨htemp, hlolo⟩ := words_toNat (uemul u.lo v.lo)
  have hsecond := toNat_U64IADD (uemul u.hi v.lo) (uemul u.lo v.lo).hi
  obtain ⟨hhilo, hlow⟩ := words_toNat (U64IADD (uemul u.hi v.lo) (uemul u.lo v.lo).hi)
  rw [toNat_uemul] at htemp hlolo hsecond
  rw [hproduct, hfits, ueemul, unsigned128.toNat]
  dsimp only
  generalize u.lo.toNat * v.lo.toNat = ll at *
  generalize u.hi.toNat * v.lo.toNat = hl at *
  generalize U64IADD (uemul u.hi v.lo) (uemul u.lo v.lo).hi = second at *
  have hthird := toNat_U64IADD (uemul u.lo v.hi) second.lo
  obtain ⟨hcarry, hlohi⟩ := words_toNat (U64IADD (uemul u.lo v.hi) second.lo)
  rw [toNat_uemul] at hthird
  generalize u.lo.toNat * v.hi.toNat = lh at *
  generalize U64IADD (uemul u.lo v.hi) second.lo = third at *
  have hfourth := toNat_U64IADD (uemul u.hi v.hi) third.hi
  rw [toNat_uemul] at hfourth
  generalize u.hi.toNat * v.hi.toNat = hh at *
  generalize U64IADD (uemul u.hi v.hi) third.hi = fourth at *
  have hfifth := toNat_U64IADD fourth second.hi
  obtain ⟨hhihi, hhilo'⟩ := words_toNat (U64IADD fourth second.hi)
  generalize U64IADD fourth second.hi = fifth at *
  -- the exact words, of which the low ones are always right
  obtain ⟨m₀, m₁, hm₀, hm₁⟩ : ∃ m₀ m₁, m₀ = (hl + ll / 2 ^ 32) % 2 ^ 32 ∧ m₁ = (hl + ll / 2 ^ 32) / 2 ^ 32 := ⟨_, _, rfl, rfl⟩
  obtain ⟨n₀, n₁, hn₀, hn₁⟩ : ∃ n₀ n₁, n₀ = (lh + m₀) % 2 ^ 32 ∧ n₁ = (lh + m₀) / 2 ^ 32 := ⟨_, _, rfl, rfl⟩
  have hsecond₀ : second.lo.toNat = m₀ := by
    rw [hlow, hsecond, htemp]
    split_ifs <;> omega
  have hsecond₁ : second.hi.toNat = (m₁ + if ll / 2 ^ 32 < 2 ^ 31 then 0 else 2 ^ 32 - 1) % 2 ^ 32 := by
    rw [hhilo, hsecond, htemp]
    split_ifs <;> omega
  rw [hsecond₀] at hthird
  have hthird₀ : third.lo.toNat = n₀ := by
    rw [hlohi, hthird]
    split_ifs <;> omega
  have hthird₁ : third.hi.toNat = (n₁ + if m₀ < 2 ^ 31 then 0 else 2 ^ 32 - 1) % 2 ^ 32 := by
    rw [hcarry, hthird]
    split_ifs <;> omega
  rw [← hm₀, ← hm₁, ← hn₁]
  have hexact : fifth.hi.toNat * 2 ^ 96 + fifth.lo.toNat * 2 ^ 64 + third.lo.toNat * 2 ^ 32 + (uemul u.lo v.lo).lo.toNat =
      hh * 2 ^ 64 + (hl + lh) * 2 ^ 32 + ll ↔ fifth.value.toNat = hh + m₁ + n₁ := by
    rw [hhihi, hhilo', hthird₀, hlolo]
    omega
  rw [hexact, hfifth, hfourth, hsecond₁, hthird₁]
  have hm₁' : m₁ < 2 ^ 32 := by omega
  have hn₁' : n₁ < 2 ^ 32 := by omega
  have hsum : hh + m₁ + n₁ < 2 ^ 64 := by omega
  have hm₀' : m₀ < 2 ^ 32 := by omega
  have hll' : ll / 2 ^ 32 < 2 ^ 32 := by omega
  generalize ll / 2 ^ 32 = l₁ at *
  clear hexact hfifth hfourth hsecond₁ hthird₁ hsecond₀ hthird₀ hsecond hthird hhilo hlow hcarry hlohi hhihi hhilo' htemp
    hlolo hm₀ hm₁ hn₀ hn₁ hproduct hfits hhl hlh
  by_cases h₁ : l₁ < 2 ^ 31
  · by_cases h₂ : m₀ < 2 ^ 31
    · simp only [h₁, h₂, if_true, true_and]
      split_ifs <;> omega
    · simp only [h₁, h₂, if_true, if_false, true_and, false_and, iff_false]
      split_ifs <;> omega
  · by_cases h₂ : m₀ < 2 ^ 31
    · simp only [h₁, h₂, if_true, if_false, false_and, iff_false]
      split_ifs <;> omega
    · simp only [h₁, h₂, if_false, false_and, iff_false]
      split_ifs <;> omega

/-! Words stored one at a time -/

theorem storeHi_update {κ : Type} [DecidableEq κ] (m : κ → unsigned64) (quot : κ) (x : unsigned64) (hi : BitVec 32) :
    storeHi (Function.update m quot x) quot hi = Function.update m quot { x with hi } := by
  rw [storeHi, Function.update_self, Function.update_idem]

theorem storeLo_update {κ : Type} [DecidableEq κ] (m : κ → unsigned64) (quot : κ) (x : unsigned64) (lo : BitVec 32) :
    storeLo (Function.update m quot x) quot lo = Function.update m quot { x with lo } := by
  rw [storeLo, Function.update_self, Function.update_idem]

theorem U64IDIV_stores_eq {κ : Type} [DecidableEq κ] (m : κ → unsigned64) (dividend quot : κ) (I : BitVec 32) :
    U64IDIV_stores m dividend quot I =
      (U64IDIV (m dividend) I).map fun result => (Function.update m quot result.1, result.2) := by
  rw [U64IDIV_stores, U64IDIV]
  dsimp only
  generalize decide ((m dividend).hi &&& SIGN ≠ 0) = negDividend
  generalize (if negDividend = true then -(m dividend).lo else (m dividend).lo) = low
  generalize (if negDividend = true then (if low = 0 then ~~~(m dividend).hi + 1 else ~~~(m dividend).hi)
    else (m dividend).hi) = high
  generalize (if I.slt 0 = true then -I else I) = divisor
  cases hfirst : uediv ⟨0, high⟩ divisor with
  | none => rfl
  | some first =>
    obtain ⟨hi, rest⟩ := first
    simp only [Option.bind_eq_bind, Option.bind_some]
    cases hsecond : uediv ⟨rest, low⟩ divisor with
    | none => rfl
    | some second =>
      obtain ⟨lo, remd⟩ := second
      simp only [Option.bind_some, Option.map_some]
      have hstored : storeLo (storeHi m quot hi) quot lo = Function.update m quot { hi, lo } := by
        rw [storeHi, storeLo_update]
      rw [hstored]
      cases (negDividend ^^ I.slt 0) with
      | false =>
        simp only [Bool.false_and, Bool.false_eq_true, if_false]
      | true =>
        simp only [Bool.true_and, if_true, decide_eq_true_eq, storeHi_update, storeLo_update, Function.update_self]
        by_cases hzero : -lo = 0
        · rw [if_pos hzero, if_pos hzero]
        · rw [if_neg hzero, if_neg hzero]

/-- The results of the word arithmetic are the exact ones, on the operands `u`, `v` and `d` of one word and `a` and `b` of
    two. -/
structure ArithExact (u v d : BitVec 32) (a b : unsigned64) : Prop where
  uemul : (uemul u v).value.toNat = u.toNat * v.toNat
  emul : (emul u v).value.toInt = u.toInt * v.toInt
  uediv_fails : uediv a d = none ↔ d = 0 ∨ 2 ^ 32 ≤ a.value.toNat / d.toNat
  uediv : ∀ q r, uediv a d = some (q, r) → q.toNat = a.value.toNat / d.toNat ∧ r.toNat = a.value.toNat % d.toNat
  ueemul : (ueemul a b).toNat = a.value.toNat * b.value.toNat
  imul : (U64IMUL a d).value = .ofInt 64 (a.value.toInt * d.toInt)
  idiv : d ≠ 0 → ∀ {κ : Type} [DecidableEq κ] (m : κ → unsigned64) (dividend quot : κ), m dividend = a →
    ∃ q r, U64IDIV_stores m dividend quot d = some (Function.update m quot q, r) ∧
      q.value.toInt = a.value.toInt.tdiv d.toInt ∧ r.toInt = a.value.toInt.tmod d.toInt

theorem toInt_emul (u v : BitVec 32) : (emul u v).value.toInt = u.toInt * v.toInt := by
  have hu := u.toInt_lt
  have hu' := u.le_toInt
  have hv := v.toInt_lt
  have hv' := v.le_toInt
  rw [value_emul, BitVec.toInt_ofInt]
  apply Int.bmod_eq_of_le <;> norm_num at * <;> nlinarith

theorem uediv_fails_iff (a : unsigned64) (d : BitVec 32) : uediv a d = none ↔ d = 0 ∨ 2 ^ 32 ≤ a.value.toNat / d.toNat := by
  rw [(uediv_spec a d).1]
  by_cases hzero : d = 0
  · subst hzero
    simp
  · have hpos : 0 < d.toNat := by
      refine Nat.pos_of_ne_zero fun h => hzero ?_
      rwa [← BitVec.toNat_inj]
    rw [Nat.le_div_iff_mul_le hpos, Nat.mul_comm]
    exact ⟨Or.inr, fun h => h.resolve_left hzero⟩

theorem toInt_quotient_iff (v : UTCValue) (d : BitVec 32) :
    (BitVec.ofInt 64 (v.toInt.tdiv d.toInt)).toInt = v.toInt.tdiv d.toInt ↔ ¬(v.toInt = -2 ^ 63 ∧ d.toInt = -1) := by
  have hlow : -2 ^ 63 ≤ v.toInt := v.le_toInt
  have hhigh : v.toInt < 2 ^ 63 := v.toInt_lt
  have hnatAbs : (v.toInt.tdiv d.toInt).natAbs ≤ v.toInt.natAbs := Int.natAbs_tdiv_le_natAbs _ _
  rw [BitVec.toInt_ofInt]
  constructor
  · rintro hfits ⟨hv, hd⟩
    rw [hv, hd] at hfits
    exact absurd hfits (by decide)
  · intro hne
    have hquotient : v.toInt.tdiv d.toInt ≠ 2 ^ 63 := by
      intro hquotient
      have hv : v.toInt = -2 ^ 63 := by
        rw [hquotient] at hnatAbs
        omega
      have hparts := Int.natAbs_tdiv v.toInt d.toInt
      rw [hquotient, hv] at hparts
      have hone : d.toInt.natAbs = 1 := (Nat.div_eq_self.mp hparts.symm).resolve_left (by decide)
      obtain hpos | hneg := Int.natAbs_eq d.toInt
      · rw [hpos, hone, hv] at hquotient
        exact absurd hquotient (by decide)
      · rw [hone] at hneg
        exact hne ⟨hv, hneg⟩
    apply Int.bmod_eq_of_le <;> omega

/-- The word arithmetic is exact when `ueemul` carries no word with its highest bit set and the least number is not divided
    by −1. -/
theorem word_arithmetic_exact_iff (u v d : BitVec 32) (a b : unsigned64) :
    ArithExact u v d a b ↔ CarriesFit a b ∧ ¬(a.value.toInt = -2 ^ 63 ∧ d.toInt = -1) := by
  constructor
  · intro h
    refine ⟨(ueemul_exact_iff a b).mp h.ueemul, fun hleast => ?_⟩
    have hd : d ≠ 0 := by
      rintro rfl
      exact absurd hleast.2 (by decide)
    obtain ⟨quot, remd, hidiv, hquot, -⟩ := U64IDIV_spec a hd
    obtain ⟨q, r, hstores, hq, -⟩ := h.idiv hd (fun _ : Unit => a) () () rfl
    rw [U64IDIV_stores_eq, hidiv, Option.map_some, Option.some.injEq, Prod.mk.injEq] at hstores
    have hsame : quot = q := by
      have hstored := congrFun hstores.1 ()
      rwa [Function.update_self, Function.update_self] at hstored
    rw [← hsame, hquot] at hq
    exact (toInt_quotient_iff a.value d).mp hq hleast
  · intro h
    refine ⟨toNat_uemul u v, toInt_emul u v, uediv_fails_iff a d, (uediv_spec a d).2, (ueemul_exact_iff a b).mpr h.1,
      value_U64IMUL a d, ?_⟩
    intro hd κ _ m dividend quot hdividend
    obtain ⟨q, r, hidiv, hquot, hremd⟩ := U64IDIV_spec a hd
    refine ⟨q, r, ?_, ?_, hremd⟩
    · rw [U64IDIV_stores_eq, hdividend, hidiv, Option.map_some]
    · rw [hquot]
      exact (toInt_quotient_iff a.value d).mpr h.2

/-- (2³² − 1)², where the word that `ueemul` carries is 2³² − 2. -/
theorem product_of_low_words_is_short : ¬∀ (u v d : BitVec 32) (a b : unsigned64), ArithExact u v d a b := by
  intro h
  have hexact := (h 0 0 1 ⟨0, 0xffffffff⟩ ⟨0, 0xffffffff⟩).ueemul
  exact absurd hexact (by decide)

end dce.dts
