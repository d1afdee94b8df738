import Mathlib.Data.List.Basic

namespace lib

variable {w : ℕ}

/-- A list of words as a set of numbers: the bit of a number, counted from the lowest one of the first word. -/
def bit (words : List (BitVec w)) (n : ℕ) : Bool := ((words[n / w]?).getD 0).getLsbD (n % w)

def setBit (words : List (BitVec w)) (n : ℕ) : List (BitVec w) := words.modify (n / w) (· ||| BitVec.twoPow w (n % w))

@[simp] theorem length_setBit (words : List (BitVec w)) (n : ℕ) : (setBit words n).length = words.length :=
  List.length_modify ..

@[simp] theorem bit_replicate_zero (count n : ℕ) : bit (List.replicate count (0 : BitVec w)) n = false := by
  rw [bit, List.getElem?_replicate]
  split_ifs
  · exact BitVec.getLsbD_zero
  · exact BitVec.getLsbD_zero

variable {n : ℕ}

theorem bit_of_length_le {words : List (BitVec w)} (hlen : words.length ≤ n / w) : bit words n = false := by
  rw [bit, List.getElem?_eq_none hlen]
  exact BitVec.getLsbD_zero

theorem bit_cons_of_lt (word : BitVec w) (words : List (BitVec w)) (hn : n < w) :
    bit (word :: words) n = word.getLsbD n := by
  rw [bit, Nat.div_eq_of_lt hn, Nat.mod_eq_of_lt hn]
  rfl

theorem bit_cons_add (word : BitVec w) (words : List (BitVec w)) (n : ℕ) (hw : 0 < w) :
    bit (word :: words) (w + n) = bit words n := by
  rw [bit, Nat.add_div_left n hw, Nat.add_mod_left]
  rfl

theorem bit_setBit {words : List (BitVec w)} (hw : 0 < w) (hn : n / w < words.length) (m : ℕ) :
    bit (setBit words n) m = (bit words m || decide (m = n)) := by
  have hmod : m % w < w := Nat.mod_lt m hw
  rw [bit, setBit, bit, List.getElem?_modify]
  by_cases hword : n / w = m / w
  · have hsame : m = n ↔ n % w = m % w := by
      refine ⟨fun h => h ▸ rfl, fun h => ?_⟩
      rw [← Nat.div_add_mod m w, ← Nat.div_add_mod n w, hword, h]
    rw [hword] at hn
    rw [List.getElem?_eq_getElem hn]
    simp [hword, hsame, hmod, eq_comm]
  · have hne : m ≠ n := fun h => hword (by rw [h])
    cases words[m / w]? <;> simp [hword, hne]

end lib

namespace lib

variable {w : ℕ} {a b c : BitVec w}

/-- Every bit of `a` is one of `b`. -/
def Within (a b : BitVec w) : Prop := a &&& b = a

instance : Decidable (Within a b) := inferInstanceAs (Decidable (_ = _))

def meet (sets : List (BitVec w)) : BitVec w := sets.foldr (· &&& ·) (.allOnes w)

theorem eq_of_bits (h : ∀ i < w, a.getLsbD i = b.getLsbD i) : a = b := BitVec.eq_of_getLsbD_eq fun i hi => h i hi

theorem within_iff : Within a b ↔ ∀ i < w, a.getLsbD i = true → b.getLsbD i = true := by
  constructor
  · intro h i _ hbit
    rw [← h, BitVec.getLsbD_and, Bool.and_eq_true] at hbit
    exact hbit.2
  · intro h
    refine eq_of_bits fun i hi => ?_
    rw [BitVec.getLsbD_and]
    cases ha : a.getLsbD i with
    | false => rfl
    | true => exact h i hi ha

theorem within_and_iff : Within a (b &&& c) ↔ Within a b ∧ Within a c := by
  simp only [within_iff, BitVec.getLsbD_and, Bool.and_eq_true]
  exact ⟨fun h => ⟨fun i hi ha => (h i hi ha).1, fun i hi ha => (h i hi ha).2⟩,
    fun h i hi ha => ⟨h.1 i hi ha, h.2 i hi ha⟩⟩

theorem within_allOnes : Within a (.allOnes w) := BitVec.and_allOnes

@[simp] theorem zero_within : Within 0 a := BitVec.zero_and

theorem within_refl : Within a a := BitVec.and_self

theorem Within.or {d : BitVec w} (h : Within a b) (h' : Within c d) : Within (a ||| c) (b ||| d) := by
  rw [within_iff] at *
  intro i hi hbit
  rw [BitVec.getLsbD_or, Bool.or_eq_true] at hbit ⊢
  exact hbit.imp (h i hi) (h' i hi)

theorem Within.and {d : BitVec w} (h : Within a b) (h' : Within c d) : Within (a &&& c) (b &&& d) := by
  rw [within_iff] at *
  intro i hi hbit
  rw [BitVec.getLsbD_and, Bool.and_eq_true] at hbit ⊢
  exact ⟨h i hi hbit.1, h' i hi hbit.2⟩

theorem Within.trans (h : Within a b) (h' : Within b c) : Within a c := by
  rw [within_iff] at *
  exact fun i hi ha => h' i hi (h i hi ha)

theorem within_or_left (h : Within a b) : Within a (b ||| c) := by
  rw [within_iff] at *
  intro i hi ha
  rw [BitVec.getLsbD_or, h i hi ha, Bool.true_or]

theorem within_or_right (h : Within a c) : Within a (b ||| c) := by
  rw [BitVec.or_comm]
  exact within_or_left h

theorem within_foldl_iff {α : Type} {step : BitVec w → α → BitVec w} {P : α → Prop}
    (hstep : ∀ set x, Within a (step set x) ↔ Within a set ∧ P x) (l : List α) (set : BitVec w) :
    Within a (l.foldl step set) ↔ Within a set ∧ ∀ x ∈ l, P x := by
  induction l generalizing set with
  | nil => simp
  | cons x l ih => rw [List.foldl_cons, ih, hstep, List.forall_mem_cons, and_assoc]

theorem not_and_eq_zero_iff : ~~~b &&& a = 0 ↔ Within a b := by
  rw [within_iff]
  constructor
  · intro h i hi ha
    have hbit : (~~~b &&& a).getLsbD i = (0#w).getLsbD i := congrArg (·.getLsbD i) h
    rw [BitVec.getLsbD_and, BitVec.getLsbD_not, ha, BitVec.getLsbD_zero] at hbit
    simpa [hi] using hbit
  · intro h
    refine eq_of_bits fun i hi => ?_
    change (~~~b &&& a).getLsbD i = (0#w).getLsbD i
    rw [BitVec.getLsbD_and, BitVec.getLsbD_not, BitVec.getLsbD_zero]
    cases ha : a.getLsbD i with
    | false => simp
    | true => simp [h i hi ha]

theorem Within.eq_zero (h : Within a 0) : a = 0 := h.symm.trans BitVec.and_zero

variable {sets : List (BitVec w)}

theorem within_meet_iff : Within a (meet sets) ↔ ∀ b ∈ sets, Within a b := by
  induction sets with
  | nil => simpa [meet] using within_allOnes
  | cons b sets ih =>
    rw [List.forall_mem_cons, ← ih]
    exact within_and_iff

theorem getLsbD_meet {i : ℕ} (hi : i < w) :
    (meet sets).getLsbD i = true ↔ ∀ b ∈ sets, b.getLsbD i = true := by
  induction sets with
  | nil => simp [meet, hi]
  | cons b sets ih =>
    rw [List.forall_mem_cons, ← ih]
    exact (by rw [meet, List.foldr_cons, BitVec.getLsbD_and, Bool.and_eq_true]; rfl)

def join (sets : List (BitVec w)) : BitVec w := sets.foldr (· ||| ·) 0

@[simp] theorem join_nil : join ([] : List (BitVec w)) = 0 := rfl

@[simp] theorem join_cons : join (a :: sets) = a ||| join sets := rfl

theorem getLsbD_join {i : ℕ} : (join sets).getLsbD i = true ↔ ∃ b ∈ sets, b.getLsbD i = true := by
  induction sets with
  | nil => simp
  | cons b sets ih => rw [join_cons, BitVec.getLsbD_or, Bool.or_eq_true, ih, List.exists_mem_cons_iff]

theorem join_congr {sets sets' : List (BitVec w)} (h : ∀ b, b ∈ sets ↔ b ∈ sets') : join sets = join sets' := by
  refine eq_of_bits fun i _ => Bool.eq_iff_iff.mpr ?_
  simp only [getLsbD_join, h]

theorem join_append {sets sets' : List (BitVec w)} : join (sets ++ sets') = join sets ||| join sets' := by
  induction sets with
  | nil => exact BitVec.zero_or.symm
  | cons b sets ih => rw [List.cons_append, join_cons, join_cons, ih, BitVec.or_assoc]

theorem or_eq_left_iff : a ||| b = a ↔ Within b a := by
  constructor
  · intro h
    rw [within_iff]
    intro i _ hb
    rw [← h, BitVec.getLsbD_or, hb, Bool.or_true]
  · intro h
    refine eq_of_bits fun i hi => ?_
    rw [BitVec.getLsbD_or]
    cases hb : b.getLsbD i with
    | false => exact Bool.or_false _
    | true => rw [within_iff.mp h i hi hb, Bool.true_or]

end lib
