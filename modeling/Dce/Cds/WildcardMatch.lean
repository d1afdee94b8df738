import Dce.Cds.WildcardGlob

open lib lib.Glob

namespace dce.cds.names

variable {flg : Byte} {rest raw : List Byte} {tests : List (Byte → Bool)}

variable {name : List Byte} {xs : List Byte}

section

variable (hflg : Wildcard flg) (h : Fragment flg rest raw tests)

include hflg h

theorem findstr_here (toEnd : ℕ) (hfits : fits tests name = true) :
    findstr flg (raw ++ rest) raw.length toEnd name name.length = some (some (name, (tests.length : ℤ))) := by
  obtain ⟨left, hcompared, hleft⟩ := cmpnames_fits hflg h name
  rw [findstr.eq_def]
  dsimp only
  rw [hcompared, hfits, hleft hfits]
  simp

theorem findstr_end (hfits : fits tests name = false) : findstr flg (raw ++ rest) raw.length 0 name name.length = some none := by
  obtain ⟨left, hcompared, -⟩ := cmpnames_fits hflg h name
  rw [findstr.eq_def]
  dsimp only
  rw [hcompared, hfits]
  rfl

theorem findstr_next (toEnd : ℕ) (hfits : fits tests name = false) :
    findstr flg (raw ++ rest) raw.length (toEnd + 1) name name.length =
      findstr flg (raw ++ rest) raw.length toEnd name.tail (name.length - 1) := by
  obtain ⟨left, hcompared, -⟩ := cmpnames_fits hflg h name
  rw [findstr.eq_def]
  dsimp only
  rw [hcompared, hfits]
  rfl

theorem findstr_first (name : List Byte) : (∃ k ≤ name.length, findstr flg (raw ++ rest) raw.length name.length name name.length =
        some (some (name.drop k, (tests.length : ℤ))) ∧ fits tests (name.drop k) = true ∧
        ∀ i < k, fits tests (name.drop i) = false) ∨
      findstr flg (raw ++ rest) raw.length name.length name name.length = some none ∧
        ∀ i, fits tests (name.drop i) = false := by
  induction name with
  | nil =>
    cases hfits : fits tests ([] : List Byte) with
    | true => exact .inl ⟨0, le_rfl, findstr_here hflg h _ hfits, hfits, fun i hi => absurd hi (Nat.not_lt_zero i)⟩
    | false => exact .inr ⟨findstr_end hflg h hfits, fun i => by rw [List.drop_nil]; exact hfits⟩
  | cons a name ih =>
    cases hfits : fits tests (a :: name) with
    | true => exact .inl ⟨0, Nat.zero_le _, findstr_here hflg h _ hfits, hfits, fun i hi => absurd hi (Nat.not_lt_zero i)⟩
    | false =>
      have hstep : findstr flg (raw ++ rest) raw.length (a :: name).length (a :: name) (a :: name).length =
          findstr flg (raw ++ rest) raw.length name.length name name.length := by
        rw [List.length_cons]
        refine (findstr_next hflg h _ hfits).trans ?_
        simp
      rw [hstep]
      obtain ⟨k, hk, hfound, hat, hbefore⟩ | ⟨hfound, hnone⟩ := ih
      · refine .inl ⟨k + 1, Nat.succ_le_succ hk, hfound, hat, fun i hi => ?_⟩
        cases i with
        | zero => exact hfits
        | succ i => exact hbefore i (Nat.lt_of_succ_lt_succ hi)
      · refine .inr ⟨hfound, fun i => ?_⟩
        cases i with
        | zero => exact hfits
        | succ i => exact hnone i

theorem tryMatches_iff (hne : tests ≠ []) (len2 : ℤ) (again : List Byte → ℤ → Option Bool) (good : List Byte → Bool)
    (hlast : len2 = raw.length → ∀ s : List Byte, good s = true ↔ s.length = raw.length)
    (hmore : len2 ≠ raw.length → ∀ s, fits tests s = true → again (s.drop tests.length) (s.length - tests.length) = some (good s))
    (rounds : ℕ) (name : List Byte) (hrounds : name.length < rounds) :
    ∃ b, tryMatches flg (raw ++ rest) len2 raw.length again rounds name name.length = some b ∧
      (b = true ↔ ∃ k, fits tests (name.drop k) = true ∧ good (name.drop k) = true) := by
  have hempty : fits tests ([] : List Byte) = false := by
    cases tests with
    | nil => exact absurd rfl hne
    | cons test tests => rfl
  induction rounds generalizing name with
  | zero => exact absurd hrounds (Nat.not_lt_zero _)
  | succ rounds ih =>
    rw [tryMatches]
    by_cases hname : name = []
    · subst hname
      exact ⟨false, rfl, by simp [hempty]⟩
    rw [if_pos (by simpa using List.length_pos_of_ne_nil hname), Int.toNat_natCast]
    obtain ⟨k, hk, hfound, hat, hbefore⟩ | ⟨hfound, hnone⟩ := findstr_first hflg h name
    swap
    · rw [hfound]
      exact ⟨false, rfl, by simp [hnone]⟩
    rw [hfound]
    have hinside : k < name.length := by
      refine lt_of_le_of_ne hk fun heq => ?_
      rw [heq, List.drop_length, hempty] at hat
      cases hat
    have hlen : (name.length : ℤ) - (name.length - (name.drop k).length) = (name.drop k).length := by omega
    have hnext : ((name.drop k).length : ℤ) - 1 = (name.drop (k + 1)).length := by
      rw [List.length_drop, List.length_drop]
      omega
    obtain ⟨b, htried, hb⟩ := ih (name.drop (k + 1)) (by rw [List.length_drop]; omega)
    have hsplit : (∃ i, fits tests (name.drop i) = true ∧ good (name.drop i) = true) ↔
        good (name.drop k) = true ∨ b = true := by
      rw [hb]
      constructor
      · rintro ⟨i, hfits, hgood⟩
        obtain hlt | rfl | hgt := Nat.lt_trichotomy i k
        · rw [hbefore i hlt] at hfits
          cases hfits
        · exact .inl hgood
        · obtain ⟨j, rfl⟩ := Nat.exists_eq_add_of_le hgt
          exact .inr ⟨j, by rw [List.drop_drop]; exact hfits, by rw [List.drop_drop]; exact hgood⟩
      · rintro (hgood | ⟨j, hfits, hgood⟩)
        · exact ⟨k, hat, hgood⟩
        · rw [List.drop_drop] at hfits hgood
          exact ⟨_, hfits, hgood⟩
    simp only [Option.bind_eq_bind, Option.bind_some, hlen, hnext, List.tail_drop, Int.toNat_natCast, Option.pure_def, htried]
    by_cases hwild : len2 = raw.length
    · rw [if_pos hwild]
      have hgood := hlast hwild (name.drop k)
      by_cases hend : (name.drop k).length = raw.length
      · refine ⟨true, if_pos (by exact_mod_cast hend), ?_⟩
        rw [hsplit]
        simp [hgood.mpr hend]
      · refine ⟨b, if_neg (by exact_mod_cast hend), ?_⟩
        rw [hsplit]
        simp [mt hgood.mp hend]
    · rw [if_neg hwild, hmore hwild _ hat]
      refine ⟨if good (name.drop k) = true then true else b, ?_, ?_⟩
      · cases good (name.drop k) <;> rfl
      · rw [hsplit]
        cases good (name.drop k) <;> simp

end

/-- A pattern as `dowild` reads it: it counts the length of the part behind the last star with the backslashes in it, and
wants as many characters more. -/
def readTokens (flg : Byte) (n : Option ℕ) (xs : List Byte) : List (Token Byte) :=
  tokens flg xs ++ (List.replicate ((escapesBehind flg n xs).getD 0) fun _ => true).map .fit

theorem readTokens_star {n : Option ℕ} : readTokens flg n (star :: rest) = .star :: readTokens flg (some 0) rest := by
  rw [readTokens, tokens_star, escapesBehind_star]
  rfl

theorem Fragment.readTokens_eq (h : Fragment flg rest raw tests) : ∃ e, raw.length = tests.length + e ∧
    ∀ n, readTokens flg n (raw ++ rest) = tests.map .fit ++ readTokens flg (n.map (· + e)) rest := by
  obtain ⟨e, hlen, hescapes⟩ := h.escapes
  refine ⟨e, hlen, fun n => ?_⟩
  rw [readTokens, readTokens, h.tokens_eq, hescapes, List.append_assoc]

theorem skipStars_eq (flg : Byte) (xs : List Byte) : ∃ ys : List Byte,
    skipStars xs.length xs = some ((ys.length : ℤ), ys) ∧ ys.length ≤ xs.length ∧ ys.head? ≠ some star ∧
    ∀ name, Matches (.star :: readTokens flg (some 0) xs) name ↔ Matches (.star :: readTokens flg (some 0) ys) name := by
  induction xs with
  | nil => exact ⟨[], rfl, le_rfl, by simp, fun _ => Iff.rfl⟩
  | cons b rest ih =>
    by_cases hstar : b = star
    · obtain ⟨ys, hskipped, hlen, hhead, hsame⟩ := ih
      subst hstar
      refine ⟨ys, ?_, le_trans hlen (by simp), hhead, fun name => ?_⟩
      · have hone : (((star :: rest).length : ℕ) : ℤ) - 1 = rest.length := by simp
        rw [skipStars, if_neg (by simp), hone, hskipped]
      · rw [readTokens_star, matches_star_star_iff]
        exact hsame name
    · exact ⟨b :: rest, if_pos (.inr hstar), le_rfl, by simpa using hstar, fun _ => Iff.rfl⟩

theorem Fragment.tests_ne_nil (h : Fragment flg rest raw tests) (hne : raw ≠ []) : tests ≠ [] := by
  cases h with
  | nil => exact absurd rfl hne
  | escape _ _ => exact List.cons_ne_nil _ _
  | any _ => exact List.cons_ne_nil _ _
  | plain _ _ _ _ => exact List.cons_ne_nil _ _

theorem dowild_iff (hflg : Wildcard flg) (depth : ℕ) (name xs : List Byte) (hdepth : xs.length < depth) :
    ∃ b, dowild flg depth name name.length xs xs.length = some b ∧
      (b = true ↔ Matches (.star :: readTokens flg (some 0) xs) name) := by
  induction depth generalizing name xs with
  | zero => exact absurd hdepth (Nat.not_lt_zero _)
  | succ depth ih =>
    obtain ⟨ys, hskipped, hshorter, hhead, hsame⟩ := skipStars_eq flg xs
    simp only [dowild, hskipped, Option.bind_eq_bind, Option.bind_some, Option.pure_def, hsame]
    by_cases hys : ys = []
    · subst hys
      exact ⟨true, rfl, by simpa [readTokens, tokens, escapesBehind] using matches_star_nil⟩
    rw [if_neg (by simpa using hys)]
    obtain ⟨raw, rest, tests, rfl, hfragment, hfound⟩ := findchar_split flg ys _ rfl
    have hraw : raw ≠ [] := by
      rintro rfl
      obtain ⟨rfl, -⟩ | ⟨rest', rfl, -⟩ := hfound
      · exact hys rfl
      · exact hhead rfl
    have htests := hfragment.tests_ne_nil hraw
    obtain ⟨e, hlen, hread⟩ := hfragment.readTokens_eq
    rw [hread]
    by_cases hname : name = []
    · subst hname
      refine ⟨false, rfl, iff_of_false (by decide) fun hmatches => ?_⟩
      obtain ⟨k, hmatches⟩ := matches_star_iff.mp hmatches
      have hfits := fits_length (matches_fits_iff.mp hmatches).1
      rw [List.drop_nil, List.length_nil, Nat.le_zero, List.length_eq_zero_iff] at hfits
      exact htests hfits
    rw [if_neg (by simpa using hname)]
    obtain ⟨rfl, hfound⟩ | ⟨rest', rfl, hfound⟩ := hfound
    · -- the part behind the last star
      have hwhole : (raw ++ []).length = raw.length := by rw [List.append_nil]
      have hend : readTokens flg ((some 0).map (· + e)) [] = (List.replicate e fun _ => true).map .fit := by
        simp [readTokens, tokens, escapesBehind]
      rw [hfound, Option.bind_some]
      simp only [Int.toNat_natCast, hwhole]
      obtain ⟨b, htried, hb⟩ := tryMatches_iff hflg hfragment htests raw.length
        (fun name1_p len1 => dowild flg depth name1_p len1 ((raw ++ []).drop (1 + raw.length)) (raw.length - 1 - raw.length))
        (fun s => decide (s.length = raw.length)) (fun _ s => by simp) (fun h => absurd rfl h) (name.length + 1) name
        (Nat.lt_succ_self _)
      refine ⟨b, htried, hb.trans ?_⟩
      rw [hend, matches_star_end_iff]
      simp [hlen]
    · -- a part between two stars
      rw [hfound, Option.bind_some, readTokens_star]
      have hwildlen : (((raw ++ star :: rest').length : ℕ) : ℤ) - ((star :: rest').length : ℕ) = raw.length := by simp
      have hbehind : (raw ++ star :: rest').drop (1 + raw.length) = rest' := by
        rw [Nat.add_comm, List.drop_append]
        simp
      have hleft : (((raw ++ star :: rest').length : ℕ) : ℤ) - 1 - raw.length = rest'.length := by
        simp
        omega
      simp only [hwildlen, Int.toNat_natCast, hbehind, hleft]
      have hagain : ∀ s : List Byte, ∃ b, dowild flg depth s s.length rest' rest'.length = some b ∧
          (b = true ↔ Matches (.star :: readTokens flg (some 0) rest') s) := fun s => ih s rest' (by
        simp only [List.length_append, List.length_cons] at hshorter
        omega)
      choose answer hanswer hanswer' using hagain
      obtain ⟨b, htried, hb⟩ := tryMatches_iff hflg hfragment htests (raw ++ star :: rest').length
        (fun name1_p len1 => dowild flg depth name1_p len1 rest' rest'.length) (fun s => answer (s.drop tests.length))
        (fun h => absurd h (by simp; omega))
        (fun _ s hfits => by
          have hlength := fits_length hfits
          have hcast : (s.length : ℤ) - tests.length = (s.drop tests.length).length := by
            rw [List.length_drop]
            omega
          rw [hcast]
          exact hanswer _)
        (name.length + 1) name (Nat.lt_succ_self _)
      refine ⟨b, htried, hb.trans ?_⟩
      rw [matches_star_iff]
      refine exists_congr fun k => ?_
      rw [matches_fits_iff, hanswer']

def OnlyWild (xs : List Byte) : Prop := ∀ b ∈ xs, b = questionMark ∨ b = star

theorem countWild_eq_none (h : ¬ OnlyWild xs) : countWild xs = none := by
  induction xs with
  | nil => exact absurd (fun _ hmem => absurd hmem List.not_mem_nil) h
  | cons b xs ih =>
    rw [countWild]
    by_cases hb : b = questionMark ∨ b = star
    · have hrest : ¬ OnlyWild xs := fun hall => h (List.forall_mem_cons.mpr ⟨hb, hall⟩)
      rw [ih hrest]
      split_ifs <;> rfl
    · rw [not_or] at hb
      rw [if_neg hb.1, if_neg hb.2]

theorem countWild_iff (flg : Byte) (h : OnlyWild xs) : ∃ q_cnt s_cnt, countWild xs = some (q_cnt, s_cnt) ∧
    ∀ name, Matches (tokens flg xs) name ↔ q_cnt ≤ name.length ∧ (s_cnt = 0 → name.length = q_cnt) := by
  induction xs with
  | nil =>
    refine ⟨0, 0, rfl, fun name => ?_⟩
    rw [tokens, matches_nil_iff]
    simp
  | cons b xs ih =>
    obtain ⟨q_cnt, s_cnt, hcount, hmatches⟩ := ih fun c hmem => h c (List.mem_cons_of_mem _ hmem)
    obtain rfl | rfl := h b List.mem_cons_self
    · refine ⟨q_cnt + 1, s_cnt, by rw [countWild, if_pos rfl, hcount]; rfl, fun name => ?_⟩
      have hone : Matches ([fun _ => true].map Token.fit ++ tokens flg xs) name ↔ _ := matches_fits_iff
      rw [tokens_cons fun _ _ => not_escaped_of_ne (by decide), show token flg questionMark = .fit fun _ => true from rfl]
      refine hone.trans ?_
      rw [hmatches]
      cases name with
      | nil => simp [fits]
      | cons a name => simp [fits]
    · refine ⟨q_cnt, s_cnt + 1, by rw [countWild, if_neg (by decide), if_pos rfl, hcount]; rfl, fun name => ?_⟩
      rw [tokens_star, matches_star_iff]
      simp only [hmatches, List.length_drop]
      constructor
      · rintro ⟨n, hlen, -⟩
        exact ⟨by omega, fun h => absurd h (Nat.succ_ne_zero _)⟩
      · rintro ⟨hlen, -⟩
        exact ⟨name.length - q_cnt, by omega, fun _ => by omega⟩

variable {name1_p name2_p : SimpleName_t}

theorem compare_text_iff (dnsCmpSimple : SimpleName_t → SimpleName_t → ℤ) (hflg : Wildcard name2_p.sn_flag)
    (htext : name1_p.sn_flag ∉ [SN_binary, SN_objectid, SN_null, SN_typed]) :
    ∃ b, names_s_compare dnsCmpSimple name1_p name2_p = some b ∧
      (b = true ↔ Matches (readTokens name2_p.sn_flag none name2_p.sn_name) name1_p.sn_name) := by
  simp only [List.mem_cons, List.not_mem_nil, or_false, not_or] at htext
  have hwild : ¬ (name2_p.sn_flag ≠ SN_wildcard ∧ name2_p.sn_flag ≠ SN_cdswildcard) := by
    obtain h | h := hflg <;> simp [h]
  rw [names_s_compare]
  dsimp only
  rw [if_neg hwild, if_neg (by simp [htext]), if_neg (by simp [htext]), SimpleName_t.sn_length, SimpleName_t.sn_length]
  generalize name1_p.sn_name = name
  generalize name2_p.sn_flag = flg at *
  generalize name2_p.sn_name = xs
  obtain ⟨raw, rest, tests, rfl, hfragment, hfound⟩ := findchar_split flg xs _ rfl
  obtain ⟨e, -, hread⟩ := hfragment.readTokens_eq
  obtain ⟨left, hcompared, hleft⟩ := cmpnames_fits hflg hfragment name
  rw [hread, matches_fits_iff]
  obtain ⟨rfl, hfound⟩ | ⟨rest', rfl, hfound⟩ := hfound
  · -- no star: the tests are all
    have hwhole : (((raw ++ []).length : ℕ) : ℤ) = raw.length := by rw [List.append_nil]
    rw [hfound]
    simp only [Option.bind_eq_bind, Option.bind_some, hwhole, hcompared, Option.pure_def]
    have hend : readTokens flg (none.map (· + e)) [] = [] := rfl
    rw [hend, matches_nil_iff, List.drop_eq_nil_iff]
    cases hfits : fits tests name with
    | false => exact ⟨false, rfl, by simp⟩
    | true =>
      refine ⟨decide (left = 0), rfl, ?_⟩
      have hlength := fits_length hfits
      rw [hleft hfits, decide_eq_true_iff]
      constructor
      · exact fun h => ⟨rfl, by omega⟩
      · exact fun h => by omega
  · have hsplit : (((raw ++ star :: rest').length : ℕ) : ℤ) - ((star :: rest').length : ℕ) = raw.length := by simp
    have hbehind : (((raw ++ star :: rest').length : ℕ) : ℤ) - raw.length - 1 = rest'.length := by
      simp
    rw [hfound]
    simp only [Option.bind_eq_bind, Option.bind_some, hsplit, hcompared, Option.pure_def, hbehind, List.tail_cons]
    cases hfits : fits tests name with
    | false => exact ⟨false, rfl, by simp⟩
    | true =>
      have hlength := fits_length hfits
      have hused : ((name.length : ℤ) - left).toNat = tests.length := by
        rw [hleft hfits]
        omega
      have hleft' : left = (name.drop tests.length).length := by
        rw [hleft hfits, List.length_drop]
        omega
      obtain ⟨b, hdone, hb⟩ := dowild_iff hflg ((raw ++ star :: rest').length + 1) (name.drop tests.length) rest' (by simp; omega)
      refine ⟨b, ?_, ?_⟩
      · rw [hused, hleft']
        exact hdone
      · rw [hb, readTokens_star]
        simp

theorem readTokens_eq_tokens {n : Option ℕ} (h : (escapesBehind flg n xs).getD 0 = 0) :
    readTokens flg n xs = tokens flg xs := by
  rw [readTokens, h]
  simp

section

variable (dnsCmpSimple : SimpleName_t → SimpleName_t → ℤ)

include dnsCmpSimple

theorem compare_binary_iff (hflg : Wildcard name2_p.sn_flag)
    (hbinary : name1_p.sn_flag = SN_binary ∨ name1_p.sn_flag = SN_objectid) :
    ∃ b, names_s_compare dnsCmpSimple name1_p name2_p = some b ∧
      (b = true ↔ OnlyWild name2_p.sn_name ∧ Matches (tokens name2_p.sn_flag name2_p.sn_name) name1_p.sn_name) := by
  have hwild : ¬ (name2_p.sn_flag ≠ SN_wildcard ∧ name2_p.sn_flag ≠ SN_cdswildcard) := by
    obtain h | h := hflg <;> simp [h]
  rw [names_s_compare]
  dsimp only
  rw [if_neg hwild, if_pos hbinary]
  by_cases honly : OnlyWild name2_p.sn_name
  · obtain ⟨q_cnt, s_cnt, hcount, hmatches⟩ := countWild_iff name2_p.sn_flag honly
    rw [hcount, hmatches, SimpleName_t.sn_length]
    dsimp only
    by_cases hlong : name1_p.sn_name.length < q_cnt
    · exact ⟨false, if_pos hlong, by simp; omega⟩
    · rw [if_neg hlong]
      by_cases hequal : q_cnt = name1_p.sn_name.length
      · exact ⟨true, if_pos hequal, by simp [honly, hequal]⟩
      · refine ⟨decide (0 < s_cnt), if_neg hequal, ?_⟩
        rw [decide_eq_true_iff]
        constructor
        · exact fun h => ⟨honly, by omega, fun hnone => by omega⟩
        · rintro ⟨-, -, hnone⟩
          exact Nat.pos_of_ne_zero fun hzero => hequal (hnone hzero).symm
  · rw [countWild_eq_none honly]
    exact ⟨false, rfl, by simp [honly]⟩

theorem compare_typed_iff (hflg : Wildcard name2_p.sn_flag) (htyped : name1_p.sn_flag = SN_null ∨ name1_p.sn_flag = SN_typed) :
    ∃ b, names_s_compare dnsCmpSimple name1_p name2_p = some b ∧ (b = true ↔ name2_p.sn_name = [star]) := by
  have hwild : ¬ (name2_p.sn_flag ≠ SN_wildcard ∧ name2_p.sn_flag ≠ SN_cdswildcard) := by
    obtain h | h := hflg <;> simp [h]
  have hbinary : ¬ (name1_p.sn_flag = SN_binary ∨ name1_p.sn_flag = SN_objectid) := by
    obtain h | h := htyped <;> rw [h] <;> decide
  rw [names_s_compare]
  dsimp only
  rw [if_neg hwild, if_neg hbinary, if_pos htyped, SimpleName_t.sn_length]
  refine ⟨_, rfl, ?_⟩
  cases name2_p.sn_name with
  | nil => simp
  | cons b rest => cases rest <;> simp

/-- Comparison with a name that has wildcards always ends with an answer, without a read behind the two names. For names that are
compared by their characters, and a pattern without an escaped character behind its last star, the answer is that of the pattern's
language; names of octets match a pattern of wildcards only, and typed ones a single star. -/
theorem names_s_compare_wild (name1_p name2_p : SimpleName_t)
    (hflg : name2_p.sn_flag = SN_wildcard ∨ name2_p.sn_flag = SN_cdswildcard) :
    ∃ answer, names_s_compare dnsCmpSimple name1_p name2_p = some answer ∧
      (name1_p.sn_flag ∉ [SN_binary, SN_objectid, SN_null, SN_typed] →
        (escapesBehind name2_p.sn_flag none name2_p.sn_name).getD 0 = 0 →
        (answer = true ↔ Matches (tokens name2_p.sn_flag name2_p.sn_name) name1_p.sn_name)) ∧
      (name1_p.sn_flag ∈ [SN_binary, SN_objectid] →
        (answer = true ↔
          OnlyWild name2_p.sn_name ∧ Matches (tokens name2_p.sn_flag name2_p.sn_name) name1_p.sn_name)) ∧
      (name1_p.sn_flag ∈ [SN_null, SN_typed] → (answer = true ↔ name2_p.sn_name = [star])) := by
  by_cases hbinary : name1_p.sn_flag = SN_binary ∨ name1_p.sn_flag = SN_objectid
  · obtain ⟨answer, hanswer, hiff⟩ := compare_binary_iff dnsCmpSimple hflg hbinary
    refine ⟨answer, hanswer, fun htext => ?_, fun _ => hiff, fun htyped => ?_⟩
    · obtain h | h := hbinary <;> simp [h] at htext
    · obtain h | h := hbinary <;> rw [h] at htyped <;> exact absurd htyped (by decide)
  by_cases htyped : name1_p.sn_flag = SN_null ∨ name1_p.sn_flag = SN_typed
  · obtain ⟨answer, hanswer, hiff⟩ := compare_typed_iff dnsCmpSimple hflg htyped
    refine ⟨answer, hanswer, fun htext => ?_, fun hin => absurd (by simpa using hin) hbinary, fun _ => hiff⟩
    obtain h | h := htyped <;> simp [h] at htext
  have htext : name1_p.sn_flag ∉ [SN_binary, SN_objectid, SN_null, SN_typed] := by
    rw [not_or] at hbinary htyped
    simp [hbinary, htyped]
  obtain ⟨answer, hanswer, hiff⟩ := compare_text_iff dnsCmpSimple hflg htext
  refine ⟨answer, hanswer, fun _ hplain => ?_, fun hin => absurd (by simpa using hin) hbinary,
    fun hin => absurd (by simpa using hin) htyped⟩
  rw [hiff, readTokens_eq_tokens hplain]

end

theorem length_a : ([0x61] : List Byte).length ≤ SIMPLENAMEMAX := by decide

def cdsName : SimpleName_t := ⟨SN_cds, [0x61], length_a⟩

def cdsPattern : SimpleName_t := ⟨SN_cdswildcard, [star, 0x61], by decide⟩

theorem names_s_compare_wild_star : ∃ answer, names_s_compare (fun _ _ => 0) cdsName cdsPattern = some answer ∧
      (cdsName.sn_flag ∉ [SN_binary, SN_objectid, SN_null, SN_typed] →
        (escapesBehind cdsPattern.sn_flag none cdsPattern.sn_name).getD 0 = 0 →
        (answer = true ↔ Matches (tokens cdsPattern.sn_flag cdsPattern.sn_name) cdsName.sn_name)) ∧
      (cdsName.sn_flag ∈ [SN_binary, SN_objectid] →
        (answer = true ↔
          OnlyWild cdsPattern.sn_name ∧ Matches (tokens cdsPattern.sn_flag cdsPattern.sn_name) cdsName.sn_name)) ∧
      (cdsName.sn_flag ∈ [SN_null, SN_typed] → (answer = true ↔ cdsPattern.sn_name = [star])) :=
  names_s_compare_wild (fun _ _ => 0) cdsName cdsPattern (.inr rfl)

def octetName : SimpleName_t := ⟨SN_binary, [0x61], length_a⟩

def octetPattern : SimpleName_t := ⟨SN_wildcard, [0x61], length_a⟩

/-- The name is in the language of the pattern, and does not match. -/
theorem octet_not_matched : Matches (tokens octetPattern.sn_flag octetPattern.sn_name) octetName.sn_name ∧
    names_s_compare (fun _ _ => 0) octetName octetPattern = some false :=
  ⟨.fit (by decide) .nil, by decide⟩

end dce.cds.names
