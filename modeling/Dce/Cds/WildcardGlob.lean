import Dce.Lib.Glob
import Dce.Cds.Wildcard

open lib lib.Glob

namespace dce.cds.names

variable (flg : Byte)

def escaped (b c : Byte) : Bool := flg = SN_cdswildcard && b = backslash && wild c

/-- The characters that a character of a pattern stands for. -/
def same (b a : Byte) : Bool := if flg = SN_wildcard then upper a = upper b else a = b

/-- The meaning of a character that is not escaped. -/
def token (b : Byte) : Token Byte := if b = star then .star else if b = questionMark then .fit fun _ => true else .fit (same flg b)

def tokens : List Byte → List (Token Byte)
  | [] => []
  | [b] => [token flg b]
  | b :: c :: rest => if escaped flg b c then .fit (same flg c) :: tokens rest else token flg b :: tokens (c :: rest)

/-- The number of escaped characters behind the last star, if there is a star. -/
def escapesBehind : Option ℕ → List Byte → Option ℕ
  | n, [] => n
  | n, [b] => if b = star then some 0 else n
  | n, b :: c :: rest =>
    if escaped flg b c then escapesBehind (n.map (· + 1)) rest
    else if b = star then escapesBehind (some 0) (c :: rest)
    else escapesBehind n (c :: rest)

/-- A part of a string without a star, before the given rest, and the tests that it stands for. -/
inductive Fragment (rest : List Byte) : List Byte → List (Byte → Bool) → Prop where
  | nil : Fragment rest [] []
  | escape {b c : Byte} {raw : List Byte} {tests : List (Byte → Bool)} :
    escaped flg b c = true → Fragment rest raw tests → Fragment rest (b :: c :: raw) (same flg c :: tests)
  | any {raw : List Byte} {tests : List (Byte → Bool)} :
    Fragment rest raw tests → Fragment rest (questionMark :: raw) ((fun _ => true) :: tests)
  | plain {b : Byte} {raw : List Byte} {tests : List (Byte → Bool)} :
    b ≠ star → b ≠ questionMark → (∀ c, (raw ++ rest).head? = some c → escaped flg b c = false) →
    Fragment rest raw tests → Fragment rest (b :: raw) (same flg b :: tests)

variable {flg} {rest raw : List Byte} {tests : List (Byte → Bool)}

theorem tokens_cons {b : Byte} (h : ∀ c, rest.head? = some c → escaped flg b c = false) :
    tokens flg (b :: rest) = token flg b :: tokens flg rest := by
  cases rest with
  | nil => rfl
  | cons c rest => rw [tokens, h c rfl, if_neg (by decide)]

theorem escapesBehind_cons {b : Byte} {n : Option ℕ} (hb : b ≠ star) (h : ∀ c, rest.head? = some c → escaped flg b c = false) :
    escapesBehind flg n (b :: rest) = escapesBehind flg n rest := by
  cases rest with
  | nil => exact if_neg hb
  | cons c rest => rw [escapesBehind, h c rfl, if_neg (by decide), if_neg hb]

theorem not_escaped_of_ne {b c : Byte} (hb : b ≠ backslash) : escaped flg b c = false := by simp [escaped, hb]

theorem escapesBehind_star {n : Option ℕ} : escapesBehind flg n (star :: rest) = escapesBehind flg (some 0) rest := by
  cases rest with
  | nil => rfl
  | cons c rest => rw [escapesBehind, not_escaped_of_ne (by decide), if_neg (by decide), if_pos rfl]

theorem tokens_star : tokens flg (star :: rest) = .star :: tokens flg rest :=
  tokens_cons fun _ _ => not_escaped_of_ne (by decide)

theorem Fragment.tokens_eq (h : Fragment flg rest raw tests) :
    tokens flg (raw ++ rest) = tests.map .fit ++ tokens flg rest := by
  induction h with
  | nil => rfl
  | @escape b c raw tests hescaped _ ih =>
    rw [List.cons_append, List.cons_append, tokens, hescaped, if_pos rfl, ih]
    rfl
  | any _ ih =>
    rw [List.cons_append, tokens_cons fun _ _ => not_escaped_of_ne (by decide), ih]
    rfl
  | plain hstar hany hnot _ ih =>
    rw [List.cons_append, tokens_cons hnot, ih, token, if_neg hstar, if_neg hany]
    rfl

theorem Fragment.escapes (h : Fragment flg rest raw tests) : ∃ e, raw.length = tests.length + e ∧
    ∀ n, escapesBehind flg n (raw ++ rest) = escapesBehind flg (n.map (· + e)) rest := by
  induction h with
  | nil => exact ⟨0, rfl, fun n => by cases n <;> rfl⟩
  | @escape b c raw tests hescaped _ ih =>
    obtain ⟨e, hlen, hescapes⟩ := ih
    refine ⟨e + 1, by simp [hlen]; omega, fun n => ?_⟩
    rw [List.cons_append, List.cons_append, escapesBehind, hescaped, if_pos rfl, hescapes, Option.map_map]
    congr 2
    funext k
    simp only [Function.comp_apply]
    omega
  | any _ ih =>
    obtain ⟨e, hlen, hescapes⟩ := ih
    refine ⟨e, by simp [hlen]; omega, fun n => ?_⟩
    rw [List.cons_append, escapesBehind_cons (by decide) fun _ _ => not_escaped_of_ne (by decide), hescapes]
  | plain hstar hany hnot _ ih =>
    obtain ⟨e, hlen, hescapes⟩ := ih
    refine ⟨e, by simp [hlen]; omega, fun n => ?_⟩
    rw [List.cons_append, escapesBehind_cons hstar hnot, hescapes]

theorem findchar_split (flg : Byte) : ∀ (xs : List Byte) (len : ℤ), len = xs.length → ∃ raw rest tests, xs = raw ++ rest ∧
    Fragment flg rest raw tests ∧
    (rest = [] ∧ findchar flg star len xs = some none ∨
      ∃ rest', rest = star :: rest' ∧ findchar flg star len xs = some (some rest)) := by
  intro xs
  induction xs using List.twoStepInduction with
  | nil =>
    rintro len rfl
    exact ⟨[], [], [], rfl, .nil, .inl ⟨rfl, rfl⟩⟩
  | singleton b =>
    rintro len rfl
    by_cases hstar : b = star
    · exact ⟨[], [b], [], rfl, .nil, .inr ⟨[], by rw [hstar], by simp [findchar, hstar]⟩⟩
    · have hnone : findchar flg star ([b] : List Byte).length [b] = some none := by simp [findchar, hstar]
      by_cases hany : b = questionMark
      · exact ⟨[b], [], [fun _ => true], rfl, by rw [hany]; exact .any .nil, .inl ⟨rfl, hnone⟩⟩
      · exact ⟨[b], [], [same flg b], rfl, .plain hstar hany (by simp) .nil, .inl ⟨rfl, hnone⟩⟩
  | cons_cons b c xs ih ih' =>
    rintro len rfl
    have hpos : (0 : ℤ) < (b :: c :: xs).length := by simp; omega
    have htwo : (2 : ℤ) ≤ (b :: c :: xs).length := by simp; omega
    by_cases hstar : b = star
    · refine ⟨[], b :: c :: xs, [], rfl, .nil, .inr ⟨c :: xs, by rw [hstar], ?_⟩⟩
      rw [findchar, if_pos hpos, if_pos hstar]
    by_cases hescaped : escaped flg b c = true
    · obtain ⟨raw, rest, tests, rfl, hfragment, hfound⟩ := ih _ rfl
      have hparts : (flg = SN_cdswildcard ∧ b = backslash) ∧ wild c = true := by
        simpa [escaped, and_assoc] using hescaped
      have hstep : findchar flg star ((b :: c :: (raw ++ rest)).length : ℕ) (b :: c :: (raw ++ rest)) =
          findchar flg star ((raw ++ rest).length : ℕ) (raw ++ rest) := by
        rw [findchar, if_pos hpos, if_neg hstar, if_pos ⟨hparts.1.2, htwo, hparts.1.1⟩]
        rw [if_pos hparts.2]
        congr 1
        simp
        omega
      rw [hstep]
      exact ⟨b :: c :: raw, rest, same flg c :: tests, rfl, .escape hescaped hfragment, hfound⟩
    · rw [Bool.not_eq_true] at hescaped
      obtain ⟨raw, rest, tests, hxs, hfragment, hfound⟩ := ih' c _ rfl
      have hstep : findchar flg star ((b :: c :: xs).length : ℕ) (b :: c :: xs) =
          findchar flg star ((c :: xs).length : ℕ) (c :: xs) := by
        have hone : (((b :: c :: xs).length : ℕ) : ℤ) - 1 = ((c :: xs).length : ℕ) := by simp
        rw [findchar, if_pos hpos, if_neg hstar, hone]
        by_cases hbackslash : b = backslash ∧ (2 : ℤ) ≤ (b :: c :: xs).length ∧ flg = SN_cdswildcard
        · have hwild : wild c = false := by simpa [escaped, hbackslash.1, hbackslash.2.2] using hescaped
          rw [if_pos hbackslash]
          exact if_neg (by simp [hwild])
        · rw [if_neg hbackslash]
      rw [hstep, hxs]
      rw [hxs] at hfound
      have hnot : ∀ d, (raw ++ rest).head? = some d → escaped flg b d = false := by
        intro d hd
        rw [← hxs] at hd
        obtain rfl : c = d := Option.some.inj hd
        exact hescaped
      by_cases hany : b = questionMark
      · exact ⟨b :: raw, rest, _, rfl, by rw [hany]; exact .any hfragment, hfound⟩
      · exact ⟨b :: raw, rest, _, rfl, .plain hstar hany hnot hfragment, hfound⟩

def Wildcard (flg : Byte) : Prop := flg = SN_wildcard ∨ flg = SN_cdswildcard

theorem same_cds (b a : Byte) : same SN_cdswildcard b a = decide (a = b) := if_neg (by decide)

section cmpnames

variable {len1 len2 : ℤ} {name1_p name2_p rest1 rest2 : List Byte} {b c a : Byte}

theorem cmpnames_stop (h : ¬ (0 < len2 ∧ 0 < len1)) : cmpnames flg len1 name1_p len2 name2_p = some (decide (len2 ≤ 0), len1) := by
  cases name2_p <;> rw [cmpnames.eq_def] <;> exact if_neg h

theorem cmpnames_any (h : 0 < len2 ∧ 0 < len1) : cmpnames flg len1 name1_p len2 (questionMark :: rest2) =
    cmpnames flg (len1 - 1) name1_p.tail (len2 - 1) rest2 := by
  rw [cmpnames.eq_def]
  dsimp only
  rw [if_pos h, if_neg (by simp)]

theorem cmpnames_escape (h : 0 < len2 ∧ 0 < len1) (htwo : 2 ≤ len2) (hwild : wild c = true) :
    cmpnames SN_cdswildcard len1 (a :: rest1) len2 (backslash :: c :: rest2) =
      if c ≠ a then some (false, len1) else cmpnames SN_cdswildcard (len1 - 1) rest1 (len2 - 1 - 1) rest2 := by
  rw [cmpnames.eq_def]
  dsimp only
  rw [if_pos h, if_pos (by decide), if_neg (by decide), if_pos ⟨rfl, htwo⟩, if_pos hwild]

theorem cmpnames_plain (hflg : Wildcard flg) (h : 0 < len2 ∧ 0 < len1) (hany : b ≠ questionMark)
    (hnot : 2 ≤ len2 → ∃ c, rest2.head? = some c ∧ escaped flg b c = false) :
    cmpnames flg len1 (a :: rest1) len2 (b :: rest2) =
      if same flg b a = false then some (false, len1) else cmpnames flg (len1 - 1) rest1 (len2 - 1) rest2 := by
  rw [cmpnames.eq_def]
  dsimp only
  rw [if_pos h, if_pos hany]
  obtain rfl | rfl := hflg
  · rw [if_pos rfl]
    simp [same]
  · have hsame : same SN_cdswildcard b a = false ↔ b ≠ a := by rw [same_cds, decide_eq_false_iff_not, ne_comm]
    rw [if_neg (by decide)]
    by_cases hbackslash : b = backslash ∧ 2 ≤ len2
    · obtain ⟨c, hc, hescaped⟩ := hnot hbackslash.2
      cases rest2 with
      | nil => cases hc
      | cons d rest2 =>
        obtain rfl : d = c := Option.some.inj hc
        have hwild : wild d = false := by simpa [escaped, hbackslash.1] using hescaped
        rw [if_pos hbackslash]
        dsimp only
        rw [if_neg (by simp [hwild])]
        simp only [hsame]
    · rw [if_neg hbackslash]
      simp only [hsame]

end cmpnames

theorem cmpnames_fits (hflg : Wildcard flg) (h : Fragment flg rest raw tests) (name : List Byte) :
    ∃ left : ℤ, cmpnames flg name.length name raw.length (raw ++ rest) = some (fits tests name, left) ∧
      (fits tests name = true → left = name.length - tests.length) := by
  induction h generalizing name with
  | nil => exact ⟨name.length, by rw [cmpnames_stop (by simp)]; simp [fits], by simp⟩
  | @escape b c raw tests hescaped _ ih =>
    have hparts : (flg = SN_cdswildcard ∧ b = backslash) ∧ wild c = true := by
      simpa [escaped, and_assoc] using hescaped
    obtain ⟨⟨rfl, rfl⟩, hwild⟩ := hparts
    cases name with
    | nil => exact ⟨0, by rw [cmpnames_stop (by simp)]; simp [fits]; omega, by simp [fits]⟩
    | cons a name =>
      obtain ⟨left, hcompared, hleft⟩ := ih name
      have hone : (((a :: name).length : ℕ) : ℤ) - 1 = name.length := by simp
      have htwo : (((backslash :: c :: raw).length : ℕ) : ℤ) - 1 - 1 = raw.length := by simp
      rw [List.cons_append, List.cons_append, cmpnames_escape (by simp; omega) (by simp; omega) hwild, hone, htwo]
      have hsame := same_cds c a
      by_cases heq : c = a
      · refine ⟨left, ?_, ?_⟩
        · rw [if_neg (not_not.mpr heq), hcompared, fits, hsame]
          simp [heq]
        · intro hfits
          rw [fits, Bool.and_eq_true] at hfits
          rw [hleft hfits.2]
          simp
      · refine ⟨(a :: name).length, ?_, ?_⟩
        · rw [if_pos heq, fits, hsame]
          simp [Ne.symm heq]
        · simp [fits, hsame, Ne.symm heq]
  | @any raw tests _ ih =>
    cases name with
    | nil => exact ⟨0, by rw [cmpnames_stop (by simp)]; simp [fits], by simp [fits]⟩
    | cons a name =>
      obtain ⟨left, hcompared, hleft⟩ := ih name
      have hone : (((a :: name).length : ℕ) : ℤ) - 1 = name.length := by simp
      have hone' : (((questionMark :: raw).length : ℕ) : ℤ) - 1 = raw.length := by simp
      rw [List.cons_append, cmpnames_any (by simp), hone, hone', List.tail_cons]
      refine ⟨left, by simp [hcompared, fits], fun hfits => ?_⟩
      rw [hleft (by simpa [fits] using hfits)]
      simp
  | @plain b raw tests hstar hany hnot _ ih =>
    cases name with
    | nil => exact ⟨0, by rw [cmpnames_stop (by simp)]; simp [fits], by simp [fits]⟩
    | cons a name =>
      obtain ⟨left, hcompared, hleft⟩ := ih name
      have hone : (((a :: name).length : ℕ) : ℤ) - 1 = name.length := by simp
      have hone' : (((b :: raw).length : ℕ) : ℤ) - 1 = raw.length := by simp
      rw [List.cons_append, cmpnames_plain hflg (by simp) hany ?_, hone, hone']
      · cases hsame : same flg b a with
        | false => exact ⟨(a :: name).length, by simp [fits, hsame], by simp [fits, hsame]⟩
        | true =>
          refine ⟨left, by simp [hcompared, fits, hsame], fun hfits => ?_⟩
          rw [hleft (by simpa [fits, hsame] using hfits)]
          simp
      · intro htwo
        cases raw with
        | nil => simp at htwo
        | cons d raw => exact ⟨d, rfl, hnot d rfl⟩

end dce.cds.names
