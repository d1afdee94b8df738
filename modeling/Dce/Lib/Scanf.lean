import Mathlib.Data.List.Induction
import Mathlib.Data.List.TakeWhile
import Mathlib.Tactic.IntervalCases

namespace lib

/-- `isspace`. -/
def isSpace (c : Char) : Bool := c = ' ' ∨ (9 ≤ c.toNat ∧ c.toNat ≤ 13)

def hexValue? (c : Char) : Option ℕ :=
  if '0'.toNat ≤ c.toNat ∧ c.toNat ≤ '9'.toNat then some (c.toNat - '0'.toNat)
  else if 'a'.toNat ≤ c.toNat ∧ c.toNat ≤ 'f'.toNat then some (c.toNat - 'a'.toNat + 10)
  else if 'A'.toNat ≤ c.toNat ∧ c.toNat ≤ 'F'.toNat then some (c.toNat - 'A'.toNat + 10)
  else none

/-- `isxdigit`. -/
def isHex (c : Char) : Bool := (hexValue? c).isSome

def hexNumber (digits : List Char) : ℕ := digits.foldl (fun n c => 16 * n + (hexValue? c).getD 0) 0

/-- A digit as `sprintf` prints it for `%x`. -/
def hexDigit (n : ℕ) : Char := if n < 10 then Char.ofNat ('0'.toNat + n) else Char.ofNat ('a'.toNat + (n - 10))

/-- A number as `sprintf` prints it for `%0wx`, when it has no more than `w` digits. -/
def printHex : ℕ → ℕ → List Char
  | 0, _ => []
  | w + 1, n => printHex w (n / 16) ++ [hexDigit (n % 16)]

/-- What a format of `sscanf` is made of: conversions `%wx`, and characters that must be met as they are. -/
inductive Conversion where
  | hex (w : ℕ)
  | char (c : Char)
  deriving DecidableEq, Repr

def readSign (w : ℕ) : List Char → Bool × ℕ × List Char
  | c :: cs =>
    if w ≠ 0 ∧ c = '-' then (true, w - 1, cs) else if w ≠ 0 ∧ c = '+' then (false, w - 1, cs) else (false, w, c :: cs)
  | [] => (false, w, [])

/-- The `0x` in front of the digits. -/
def readBase (w : ℕ) : List Char → ℕ × List Char
  | c :: x :: cs => if 2 ≤ w ∧ c = '0' ∧ (x = 'x' ∨ x = 'X') then (w - 2, cs) else (w, c :: x :: cs)
  | cs => (w, cs)

/-- The conversion `%wx`: blanks are skipped, and then as many of the next `w` characters are read as may spell a number.
The value is `none` when they do not. -/
def readHex (w : ℕ) (s : List Char) : Option (ℤ × List Char) :=
  let (negative, w, s) := readSign w (s.dropWhile isSpace)
  let (w, s) := readBase w s
  let digits := (s.take w).takeWhile isHex
  if digits = [] then none
  else some (if negative then -(hexNumber digits : ℤ) else hexNumber digits, s.drop digits.length)

/-- `sscanf`: the values that are assigned until a conversion fails. -/
def sscanf : List Conversion → List Char → List ℤ
  | [], _ => []
  | .char _ :: _, [] => []
  | .char c :: format, d :: s => if c = d then sscanf format s else []
  | .hex w :: format, s =>
    match readHex w s with
    | none => []
    | some (v, rest) => v :: sscanf format rest

/-- A number as it may be spelled: behind blanks, with a sign and with `0x`. -/
structure Spelling where
  blanks : List Char
  sign : List Char
  base : List Char
  digits : List Char
  deriving DecidableEq, Repr

namespace Spelling

def number (n : Spelling) : List Char := n.sign ++ (n.base ++ n.digits)

def text (n : Spelling) : List Char := n.blanks ++ n.number

def value (n : Spelling) : ℤ := if n.sign = ['-'] then -(hexNumber n.digits : ℤ) else hexNumber n.digits

/-- The spelling of a number for `%wx`, in front of `rest`, whose first character does not go on with it. -/
structure Fits (n : Spelling) (w : ℕ) (rest : List Char) : Prop where
  blanks : ∀ c ∈ n.blanks, isSpace c = true
  sign : n.sign = [] ∨ n.sign = ['+'] ∨ n.sign = ['-']
  base : n.base = [] ∨ n.base = ['0', 'x'] ∨ n.base = ['0', 'X']
  digits_ne : n.digits ≠ []
  digits : ∀ c ∈ n.digits, isHex c = true
  width : n.number.length ≤ w
  ends : n.number.length < w → ∀ c ∈ rest.head?, isHex c = false ∧
    (n.base = [] → n.digits = ['0'] → c ≠ 'x' ∧ c ≠ 'X')

end Spelling

theorem hexValue_lt {c : Char} {n : ℕ} (h : hexValue? c = some n) : n < 16 := by
  have h0 : '0'.toNat = 48 := rfl
  have h9 : '9'.toNat = 57 := rfl
  have ha : 'a'.toNat = 97 := rfl
  have hf : 'f'.toNat = 102 := rfl
  have hA : 'A'.toNat = 65 := rfl
  have hF : 'F'.toNat = 70 := rfl
  unfold hexValue? at h
  split_ifs at h <;>
  · have hn := Option.some.inj h
    omega

theorem hexValue_hexDigit {n : ℕ} (h : n < 16) : hexValue? (hexDigit n) = some n := by
  interval_cases n <;> rfl

theorem hexNumber_append (digits : List Char) (c : Char) :
    hexNumber (digits ++ [c]) = 16 * hexNumber digits + (hexValue? c).getD 0 := by
  rw [hexNumber, List.foldl_append]
  rfl

theorem hexNumber_lt (digits : List Char) : hexNumber digits < 16 ^ digits.length := by
  induction digits using List.reverseRecOn with
  | nil => exact Nat.one_pos
  | append_singleton digits c ih =>
    have hlt : (hexValue? c).getD 0 < 16 := by
      cases hc : hexValue? c with
      | none => exact Nat.succ_pos _
      | some n => exact hexValue_lt hc
    rw [hexNumber_append, List.length_append, List.length_singleton, pow_succ]
    omega

theorem length_printHex (w n : ℕ) : (printHex w n).length = w := by
  induction w generalizing n with
  | zero => rfl
  | succ w ih => rw [printHex, List.length_append, ih, List.length_singleton]

theorem isHex_of_mem_printHex {w n : ℕ} {c : Char} (h : c ∈ printHex w n) : isHex c = true := by
  induction w generalizing n with
  | zero => exact absurd h (List.not_mem_nil)
  | succ w ih =>
    rw [printHex, List.mem_append, List.mem_singleton] at h
    rcases h with h | rfl
    · exact ih h
    · rw [isHex, hexValue_hexDigit (Nat.mod_lt _ (by omega))]
      rfl

theorem hexNumber_printHex {w n : ℕ} (h : n < 16 ^ w) : hexNumber (printHex w n) = n := by
  induction w generalizing n with
  | zero =>
    rw [pow_zero, Nat.lt_one_iff] at h
    rw [h]
    rfl
  | succ w ih =>
    rw [pow_succ] at h
    rw [printHex, hexNumber_append, hexValue_hexDigit (Nat.mod_lt _ (by omega)), ih (by omega), Option.getD_some]
    omega

theorem isSpace_of_isHex {c : Char} (h : isHex c = true) : isSpace c = false := by
  unfold isHex hexValue? at h
  have hlt : '0'.toNat ≤ c.toNat := by
    by_contra hlt
    split_ifs at h <;> simp_all <;> omega
  have h0 : '0'.toNat = 48 := rfl
  have hspace : c ≠ ' ' := by
    rintro rfl
    exact absurd hlt (by decide)
  simp only [isSpace, hspace, false_or, decide_eq_false_iff_not]
  omega

theorem isHex_not_sign {c : Char} (h : isHex c = true) : c ≠ '-' ∧ c ≠ '+' ∧ c ≠ 'x' ∧ c ≠ 'X' := by
  refine ⟨?_, ?_, ?_, ?_⟩ <;>
  · rintro rfl
    exact absurd h (by decide)

theorem takeWhile_take {digits rest : List Char} {w : ℕ} (hdigits : ∀ c ∈ digits, isHex c = true) (hw : digits.length ≤ w)
    (hends : digits.length < w → ∀ c ∈ rest.head?, isHex c = false) :
    ((digits ++ rest).take w).takeWhile isHex = digits := by
  obtain ⟨more, rfl⟩ := Nat.exists_eq_add_of_le hw
  rw [List.take_length_add_append, List.takeWhile_append_of_pos hdigits]
  have hnone : (rest.take more).takeWhile isHex = [] := by
    cases more with
    | zero => rfl
    | succ more =>
      cases rest with
      | nil => rfl
      | cons c rest =>
        rw [List.take_succ_cons, List.takeWhile_cons_of_neg]
        have := hends (by omega) c rfl
        simp [this]
  rw [hnone, List.append_nil]

theorem dropWhile_of_head {s : List Char} (h : ∀ c ∈ s.head?, isSpace c = false) : s.dropWhile isSpace = s := by
  cases s with
  | nil => rfl
  | cons c s => rw [List.dropWhile_cons_of_neg (by simp [h c rfl])]

/-- The characters begin with `0x`. -/
def StartsBase (s : List Char) : Prop := ∃ x cs, s = '0' :: x :: cs ∧ (x = 'x' ∨ x = 'X')

theorem readSign_cases (w : ℕ) (s : List Char) : ∃ sign rest, s = sign ++ rest ∧ (sign = [] ∨ sign = ['+'] ∨ sign = ['-']) ∧
    sign.length ≤ w ∧ readSign w s = (decide (sign = ['-']), w - sign.length, rest) := by
  cases s with
  | nil => exact ⟨[], [], rfl, .inl rfl, Nat.zero_le _, rfl⟩
  | cons c cs =>
    rw [readSign]
    by_cases hminus : w ≠ 0 ∧ c = '-'
    · refine ⟨['-'], cs, by rw [hminus.2]; rfl, .inr (.inr rfl), Nat.pos_of_ne_zero hminus.1, ?_⟩
      rw [if_pos hminus]
      rfl
    · by_cases hplus : w ≠ 0 ∧ c = '+'
      · refine ⟨['+'], cs, by rw [hplus.2]; rfl, .inr (.inl rfl), Nat.pos_of_ne_zero hplus.1, ?_⟩
        rw [if_neg hminus, if_pos hplus]
        rfl
      · refine ⟨[], c :: cs, rfl, .inl rfl, Nat.zero_le _, ?_⟩
        rw [if_neg hminus, if_neg hplus]
        rfl

theorem readSign_append {w : ℕ} {sign rest : List Char} (hsign : sign = [] ∨ sign = ['+'] ∨ sign = ['-']) (hw : sign.length ≤ w)
    (hrest : sign = [] → ∀ c ∈ rest.head?, c ≠ '-' ∧ c ≠ '+') :
    readSign w (sign ++ rest) = (decide (sign = ['-']), w - sign.length, rest) := by
  rcases hsign with rfl | rfl | rfl
  · cases rest with
    | nil => rfl
    | cons c rest =>
      obtain ⟨hminus, hplus⟩ := hrest rfl c rfl
      rw [List.nil_append, readSign, if_neg fun h => hminus h.2, if_neg fun h => hplus h.2]
      rfl
  · have hpos : w ≠ 0 := Nat.pos_iff_ne_zero.mp hw
    rw [List.singleton_append, readSign, if_neg fun h => absurd h.2 (by decide), if_pos ⟨hpos, rfl⟩]
    rfl
  · have hpos : w ≠ 0 := Nat.pos_iff_ne_zero.mp hw
    rw [List.singleton_append, readSign, if_pos ⟨hpos, rfl⟩]
    rfl

theorem readBase_of_not {w : ℕ} {s : List Char} (h : ¬(2 ≤ w ∧ StartsBase s)) : readBase w s = (w, s) := by
  match s with
  | [] => rfl
  | [c] => rfl
  | c :: x :: cs =>
    rw [readBase, if_neg]
    rintro ⟨hw, rfl, hx⟩
    exact h ⟨hw, x, cs, rfl, hx⟩

theorem readBase_cases (w : ℕ) (s : List Char) :
    ∃ base rest, s = base ++ rest ∧ (base = [] ∨ base = ['0', 'x'] ∨ base = ['0', 'X']) ∧ base.length ≤ w ∧
      (base = [] → ¬(2 ≤ w ∧ StartsBase rest)) ∧ readBase w s = (w - base.length, rest) := by
  by_cases h : 2 ≤ w ∧ StartsBase s
  · obtain ⟨hw, x, cs, rfl, hx⟩ := h
    have hread : readBase w ('0' :: x :: cs) = (w - 2, cs) := by rw [readBase, if_pos ⟨hw, rfl, hx⟩]
    rcases hx with rfl | rfl
    · exact ⟨['0', 'x'], cs, rfl, .inr (.inl rfl), hw, by simp, hread⟩
    · exact ⟨['0', 'X'], cs, rfl, .inr (.inr rfl), hw, by simp, hread⟩
  · exact ⟨[], s, rfl, .inl rfl, Nat.zero_le _, fun _ => h, readBase_of_not h⟩

theorem readBase_append {w : ℕ} {base rest : List Char} (hbase : base = [] ∨ base = ['0', 'x'] ∨ base = ['0', 'X'])
    (hw : base.length ≤ w) (hrest : base = [] → ¬(2 ≤ w ∧ StartsBase rest)) :
    readBase w (base ++ rest) = (w - base.length, rest) := by
  rcases hbase with rfl | rfl | rfl
  · exact readBase_of_not (hrest rfl)
  · change readBase w ('0' :: 'x' :: rest) = _
    rw [readBase, if_pos ⟨hw, rfl, .inl rfl⟩]
    rfl
  · change readBase w ('0' :: 'X' :: rest) = _
    rw [readBase, if_pos ⟨hw, rfl, .inr rfl⟩]
    rfl

theorem startsBase_digits {digits rest : List Char} (hne : digits ≠ []) (hdigits : ∀ c ∈ digits, isHex c = true)
    (h : StartsBase (digits ++ rest)) : digits = ['0'] ∧ ∃ c ∈ rest.head?, c = 'x' ∨ c = 'X' := by
  obtain ⟨x, cs, heq, hx⟩ := h
  match digits, hne with
  | [c], _ =>
    rw [List.singleton_append] at heq
    obtain ⟨rfl, rfl⟩ := List.cons.inj heq
    exact ⟨rfl, x, rfl, hx⟩
  | c :: d :: digits, _ =>
    obtain ⟨-, heq⟩ := List.cons.inj heq
    obtain ⟨rfl, -⟩ := List.cons.inj heq
    have hnot := isHex_not_sign (hdigits d (by simp))
    rcases hx with rfl | rfl
    · exact absurd rfl hnot.2.2.1
    · exact absurd rfl hnot.2.2.2

theorem readHex_iff {w : ℕ} {s rest : List Char} {v : ℤ} :
    readHex w s = some (v, rest) ↔ ∃ n : Spelling, s = n.text ++ rest ∧ n.Fits w rest ∧ n.value = v := by
  constructor
  · intro hread
    obtain ⟨sign, s₁, hs₁, hsign, hsignw, hreadSign⟩ := readSign_cases w (s.dropWhile isSpace)
    obtain ⟨base, s₂, hs₂, hbase, hbasew, hnotBase, hreadBase⟩ := readBase_cases (w - sign.length) s₁
    obtain ⟨digits, hd⟩ : ∃ digits, digits = (s₂.take (w - sign.length - base.length)).takeWhile isHex := ⟨_, rfl⟩
    rw [readHex, hreadSign] at hread
    dsimp only at hread
    rw [hreadBase] at hread
    dsimp only at hread
    rw [← hd] at hread
    obtain ⟨hne, hread⟩ := Option.ite_none_left_eq_some.mp hread
    obtain ⟨hv, hrest⟩ := Prod.mk.inj (Option.some.inj hread)
    have hlength : digits.length ≤ w - sign.length - base.length := by
      rw [hd]
      exact ((List.takeWhile_prefix isHex).length_le).trans (List.length_take_le ..)
    have hprefix : digits <+: s₂ := hd ▸ (List.takeWhile_prefix isHex).trans (List.take_prefix ..)
    have hs₂' : s₂ = digits ++ rest := by
      obtain ⟨more, rfl⟩ := hprefix
      rw [← hrest, List.drop_left]
    have hhex : ∀ c ∈ digits, isHex c = true := fun c hc => List.mem_takeWhile_imp (hd ▸ hc)
    refine ⟨⟨s.takeWhile isSpace, sign, base, digits⟩, ?_, ⟨fun c hc => List.mem_takeWhile_imp hc, hsign, hbase, hne, hhex, ?_, ?_⟩,
      ?_⟩
    · rw [Spelling.text, Spelling.number]
      dsimp only
      rw [List.append_assoc, List.append_assoc, List.append_assoc, ← hs₂', ← hs₂, ← hs₁, List.takeWhile_append_dropWhile]
    · rw [Spelling.number, List.length_append, List.length_append]
      dsimp only
      omega
    · intro hshort c hc
      rw [Spelling.number, List.length_append, List.length_append] at hshort
      dsimp only at hshort ⊢
      obtain ⟨more, rfl⟩ : ∃ more, rest = c :: more := by
        cases rest with
        | nil => exact absurd hc (by simp)
        | cons d more => exact ⟨more, by rw [Option.mem_some_iff.mp hc]⟩
      refine ⟨?_, fun hnone hzero => ?_⟩
      · by_contra hhexc
        rw [Bool.not_eq_false] at hhexc
        obtain ⟨k, hk⟩ := Nat.exists_eq_add_of_lt (show digits.length < w - sign.length - base.length by omega)
        have htake : s₂.take (w - sign.length - base.length) = digits ++ c :: more.take k := by
          rw [hs₂', hk, Nat.add_assoc, List.take_length_add_append, List.take_succ_cons]
        have hlonger := congrArg List.length hd
        rw [htake, List.takeWhile_append_of_pos hhex, List.takeWhile_cons_of_pos hhexc, List.length_append,
          List.length_cons] at hlonger
        omega
      · subst hnone hzero
        have hnot := hnotBase rfl
        have hroom : 2 ≤ w - sign.length := by
          simp only [List.length_nil, List.length_singleton] at hshort
          omega
        have hx : ¬(c = 'x' ∨ c = 'X') := fun hx => hnot ⟨hroom, c, more, hs₂', hx⟩
        exact not_or.mp hx
    · rw [← hv, Spelling.value]
      simp only [decide_eq_true_eq]
  · rintro ⟨n, rfl, hfits, rfl⟩
    have hwidth := hfits.width
    rw [Spelling.number, List.length_append, List.length_append] at hwidth
    have htext : n.text ++ rest = n.blanks ++ (n.sign ++ (n.base ++ (n.digits ++ rest))) := by
      rw [Spelling.text, Spelling.number, List.append_assoc, List.append_assoc, List.append_assoc]
    have hfirst : ∀ c ∈ (n.base ++ (n.digits ++ rest)).head?, isHex c = true := by
      intro c hc
      rcases hfits.base with hb | hb | hb
      · rw [hb, List.nil_append] at hc
        obtain ⟨d, digits, hdigits⟩ := List.exists_cons_of_ne_nil hfits.digits_ne
        rw [hdigits, List.cons_append, List.head?_cons, Option.mem_some_iff] at hc
        exact hfits.digits c (by rw [hdigits, hc]; exact List.mem_cons_self)
      · rw [hb] at hc
        obtain rfl := Option.mem_some_iff.mp hc
        decide
      · rw [hb] at hc
        obtain rfl := Option.mem_some_iff.mp hc
        decide
    have hdrop : (n.text ++ rest).dropWhile isSpace = n.sign ++ (n.base ++ (n.digits ++ rest)) := by
      rw [htext, List.dropWhile_append_of_pos hfits.blanks]
      rcases hfits.sign with hs | hs | hs
      · rw [hs, List.nil_append]
        exact dropWhile_of_head fun c hc => isSpace_of_isHex (hfirst c hc)
      · rw [hs]
        rfl
      · rw [hs]
        rfl
    have hsign := readSign_append (w := w) hfits.sign (by omega) (fun _ c hc => (isHex_not_sign (hfirst c hc)).imp_right And.left)
    have hbase := @readBase_append (w - n.sign.length) n.base (n.digits ++ rest) hfits.base (by omega) (by
      rintro hnone ⟨hroom, hstarts⟩
      obtain ⟨hzero, c, hc, hx⟩ := startsBase_digits hfits.digits_ne hfits.digits hstarts
      have hshort : n.number.length < w := by
        rw [Spelling.number, List.length_append, List.length_append, hnone, hzero]
        simp only [List.length_nil, List.length_singleton]
        omega
      have hnot := (hfits.ends hshort c hc).2 hnone hzero
      rcases hx with rfl | rfl
      · exact hnot.1 rfl
      · exact hnot.2 rfl)
    have hdigits := @takeWhile_take n.digits rest (w - n.sign.length - n.base.length) hfits.digits (by omega)
      (fun hshort c hc => by
        refine (hfits.ends ?_ c hc).1
        rw [Spelling.number, List.length_append, List.length_append]
        omega)
    rw [readHex, hdrop, hsign]
    dsimp only
    rw [hbase]
    dsimp only
    rw [hdigits, if_neg hfits.digits_ne, List.drop_left, Spelling.value]
    simp only [decide_eq_true_eq]

/-- The numbers that characters spell, as far as a format goes, and the characters behind them. -/
inductive Scans : List Conversion → List Char → List Spelling → List Char → Prop
  | done {rest : List Char} : Scans [] rest [] rest
  | char {c : Char} {format : List Conversion} {s : List Char} {ns : List Spelling} {rest : List Char} :
    Scans format s ns rest → Scans (.char c :: format) (c :: s) ns rest
  | hex {w : ℕ} {n : Spelling} {format : List Conversion} {s : List Char} {ns : List Spelling} {rest : List Char} :
    n.Fits w s → Scans format s ns rest → Scans (.hex w :: format) (n.text ++ s) (n :: ns) rest

def widths : List Conversion → List ℕ
  | [] => []
  | .hex w :: format => w :: widths format
  | .char _ :: format => widths format

def EndsHex : List Conversion → Prop
  | [] => True
  | .hex _ :: format => EndsHex format
  | .char _ :: format => widths format ≠ [] ∧ EndsHex format

instance EndsHex.decidable : (format : List Conversion) → Decidable (EndsHex format)
  | [] => .isTrue trivial
  | .hex _ :: format => EndsHex.decidable format
  | .char _ :: format => @instDecidableAnd _ _ (inferInstanceAs (Decidable (widths format ≠ []))) (EndsHex.decidable format)

theorem sscanf_iff {format : List Conversion} (hends : EndsHex format) {s : List Char} {vs : List ℤ} :
    sscanf format s = vs ∧ vs.length = (widths format).length ↔
      ∃ ns rest, Scans format s ns rest ∧ ns.map Spelling.value = vs := by
  induction format generalizing s vs with
  | nil =>
    rw [sscanf]
    constructor
    · rintro ⟨rfl, -⟩
      exact ⟨[], s, .done, rfl⟩
    · rintro ⟨ns, rest, hscans, rfl⟩
      cases hscans
      exact ⟨rfl, rfl⟩
  | cons c format ih =>
    cases c with
    | char c =>
      obtain ⟨hne, hends⟩ := hends
      have hpos : (widths format).length ≠ 0 := fun h => hne (List.length_eq_zero_iff.mp h)
      constructor
      · rintro ⟨hvs, hlength⟩
        rw [widths] at hlength
        have hsome : sscanf (.char c :: format) s ≠ [] := by
          intro hnone
          rw [← hvs, hnone, List.length_nil] at hlength
          omega
        cases s with
        | nil => exact absurd (by rw [sscanf]) hsome
        | cons d s =>
          rw [sscanf] at hvs hsome
          by_cases hcd : c = d
          · subst hcd
            rw [if_pos rfl] at hvs
            obtain ⟨ns, rest, hscans, hns⟩ := (ih hends).mp ⟨hvs, hlength⟩
            exact ⟨ns, rest, .char hscans, hns⟩
          · exact absurd (if_neg hcd) hsome
      · rintro ⟨ns, rest, hscans, hns⟩
        cases hscans with
        | char hscans =>
          rw [sscanf, if_pos rfl, widths]
          exact (ih hends).mpr ⟨ns, rest, hscans, hns⟩
    | hex w =>
      constructor
      · rintro ⟨hvs, hlength⟩
        rw [widths, List.length_cons] at hlength
        rw [sscanf] at hvs
        cases hread : readHex w s with
        | none =>
          rw [hread] at hvs
          dsimp only at hvs
          rw [← hvs, List.length_nil] at hlength
          omega
        | some result =>
          obtain ⟨v, s'⟩ := result
          rw [hread] at hvs
          dsimp only at hvs
          obtain ⟨n, rfl, hfits, rfl⟩ := readHex_iff.mp hread
          rw [← hvs, List.length_cons] at hlength
          obtain ⟨ns, rest, hscans, hns⟩ := (ih hends).mp ⟨rfl, Nat.succ.inj hlength⟩
          exact ⟨n :: ns, rest, .hex hfits hscans, by rw [List.map_cons, hns, hvs]⟩
      · rintro ⟨ns, rest, hscans, rfl⟩
        cases hscans with
        | @hex _ n _ s ns rest hfits hscans =>
          obtain ⟨hvs, hlength⟩ := (ih hends).mpr ⟨ns, rest, hscans, rfl⟩
          have hread := readHex_iff.mpr ⟨n, rfl, hfits, rfl⟩
          rw [sscanf, hread, widths, List.map_cons, List.length_cons, List.length_cons, hlength]
          dsimp only
          exact ⟨by rw [hvs], rfl⟩

theorem Scans.values_unique {format : List Conversion} (hends : EndsHex format) {s : List Char} {ns ns' : List Spelling}
    {rest rest' : List Char} (h : Scans format s ns rest) (h' : Scans format s ns' rest') :
    ns.map Spelling.value = ns'.map Spelling.value := by
  obtain ⟨hvs, -⟩ := (sscanf_iff hends).mpr ⟨ns, rest, h, rfl⟩
  obtain ⟨hvs', -⟩ := (sscanf_iff hends).mpr ⟨ns', rest', h', rfl⟩
  rw [← hvs, ← hvs']

/-- Characters that spell numbers with all their digits, and nothing else. -/
inductive Spells : List Conversion → List Char → List ℕ → Prop
  | done : Spells [] [] []
  | char {c : Char} {format : List Conversion} {s : List Char} {vs : List ℕ} :
    Spells format s vs → Spells (.char c :: format) (c :: s) vs
  | hex {w : ℕ} {digits : List Char} {format : List Conversion} {s : List Char} {vs : List ℕ} :
    digits.length = w → (∀ c ∈ digits, isHex c = true) → Spells format s vs →
      Spells (.hex w :: format) (digits ++ s) (hexNumber digits :: vs)

/-- A number is spelled by its digits alone. -/
structure Spelling.Plain (n : Spelling) (w : ℕ) : Prop where
  blanks : n.blanks = []
  sign : n.sign = []
  base : n.base = []
  length : n.digits.length = w

/-- `sprintf`, for a format with `%0wx` for `%wx`. -/
def sprintf : List Conversion → List ℕ → List Char
  | [], _ => []
  | .char c :: format, vs => c :: sprintf format vs
  | .hex w :: format, v :: vs => printHex w v ++ sprintf format vs
  | .hex _ :: _, [] => []

theorem spells_sprintf {format : List Conversion} {vs : List ℕ}
    (hvs : List.Forall₂ (fun v w => v < 16 ^ w) vs (widths format)) : Spells format (sprintf format vs) vs := by
  induction format generalizing vs with
  | nil =>
    cases hvs
    exact .done
  | cons c format ih =>
    cases c with
    | char c => exact .char (ih hvs)
    | hex w =>
      cases hvs with
      | @cons v _ vs _ hv hvs =>
        have hspells := Spells.hex (length_printHex w v) (fun c => isHex_of_mem_printHex) (ih hvs)
        rw [hexNumber_printHex hv] at hspells
        exact hspells

theorem Spells.lt {format : List Conversion} {s : List Char} {vs : List ℕ} (h : Spells format s vs) :
    List.Forall₂ (fun v w => v < 16 ^ w) vs (widths format) := by
  induction h with
  | done => exact .nil
  | char _ ih => exact ih
  | @hex w digits _ _ _ hlength _ _ ih => exact .cons (hlength ▸ hexNumber_lt digits) ih

def textLength : List Conversion → ℕ
  | [] => 0
  | .hex w :: format => w + textLength format
  | .char _ :: format => 1 + textLength format

theorem Spells.length {format : List Conversion} {s : List Char} {vs : List ℕ} (h : Spells format s vs) :
    s.length = textLength format := by
  induction h with
  | done => rfl
  | char _ ih => rw [List.length_cons, textLength, ih, Nat.add_comm]
  | hex hlength _ _ ih => rw [List.length_append, textLength, ih, hlength]

theorem Spells.head {w : ℕ} {format : List Conversion} {s : List Char} {vs : List ℕ} (h : Spells (.hex (w + 1) :: format) s vs)
    {c : Char} (hc : s.head? = some c) : isHex c = true := by
  cases h with
  | @hex _ digits _ _ _ hlength hhex _ =>
    obtain ⟨d, digits, rfl⟩ := List.exists_cons_of_length_eq_add_one hlength
    obtain rfl := Option.some.inj hc
    exact hhex d List.mem_cons_self

theorem spells_iff {format : List Conversion} (hpos : ∀ w ∈ widths format, 0 < w) {s : List Char} {vs : List ℕ} :
    Spells format s vs ↔ ∃ ns, Scans format s ns [] ∧ List.Forall₂ Spelling.Plain ns (widths format) ∧
      ns.map Spelling.value = vs.map Nat.cast := by
  constructor
  · intro h
    induction h with
    | done => exact ⟨[], .done, .nil, rfl⟩
    | char _ ih =>
      obtain ⟨ns, hscans, hplain, hns⟩ := ih hpos
      exact ⟨ns, .char hscans, hplain, hns⟩
    | @hex w digits format s vs hlength hhex _ ih =>
      rw [widths, List.forall_mem_cons] at hpos
      obtain ⟨ns, hscans, hplain, hns⟩ := ih hpos.2
      have hfits : Spelling.Fits ⟨[], [], [], digits⟩ w s :=
        { blanks := fun c hc => absurd hc List.not_mem_nil
          sign := .inl rfl
          base := .inl rfl
          digits_ne := fun hnil => by
            have hzero := hlength.symm.trans (congrArg List.length hnil)
            rw [List.length_nil] at hzero
            omega
          digits := hhex
          width := hlength.le
          ends := fun hshort => absurd hlength hshort.ne }
      refine ⟨⟨[], [], [], digits⟩ :: ns, .hex hfits hscans, .cons ⟨rfl, rfl, rfl, hlength⟩ hplain, ?_⟩
      rw [List.map_cons, List.map_cons, hns]
      rfl
  · rintro ⟨ns, hscans, hplain, hns⟩
    obtain ⟨rest, hrest⟩ : ∃ rest : List Char, rest = [] := ⟨[], rfl⟩
    rw [← hrest] at hscans
    induction hscans generalizing vs with
    | done =>
      obtain rfl := List.map_eq_nil_iff.mp hns.symm
      rw [hrest]
      exact .done
    | char _ ih => exact .char (ih hpos hplain hns hrest)
    | @hex w n format s ns rest hfits _ ih =>
      rw [widths, List.forall_mem_cons] at hpos
      cases hplain with
      | cons hn hplain =>
        cases vs with
        | nil => exact absurd hns (List.cons_ne_nil _ _)
        | cons v vs =>
          rw [List.map_cons, List.map_cons] at hns
          obtain ⟨hv, hns⟩ := List.cons.inj hns
          have htext : n.text = n.digits := by
            rw [Spelling.text, Spelling.number, hn.blanks, hn.sign, hn.base]
            rfl
          have hvalue : hexNumber n.digits = v := by
            rw [Spelling.value, hn.sign, if_neg (List.cons_ne_nil _ _).symm] at hv
            exact Nat.cast_injective hv
          rw [htext, ← hvalue]
          exact .hex hn.length hfits.digits (ih hpos.2 hplain hns hrest)

end lib
