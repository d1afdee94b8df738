import Dce.Lib.Scanf
import Dce.Sec.AclEval

open lib dce.dts

namespace dce.rpc

/-- The statuses of the conversions of UUIDs. -/
inductive uuid_string_status_t where
  | uuid_s_bad_version
  | uuid_s_invalid_string_uuid
  deriving DecidableEq, Repr

/-- The reserved bits are those of variant 0, 1 or 2. -/
def KnownVariant (clock_seq_hi_and_reserved : Byte) : Prop :=
  clock_seq_hi_and_reserved &&& 0x80 = 0x00 ∨ clock_seq_hi_and_reserved &&& 0xc0 = 0x80 ∨
    clock_seq_hi_and_reserved &&& 0xe0 = 0xc0

def CHECK_STRUCTURE (uuid : uuid_t) : Prop := KnownVariant uuid.clock_seq_hi_and_reserved

instance (uuid : uuid_t) : Decidable (CHECK_STRUCTURE uuid) :=
  inferInstanceAs (Decidable (_ ∨ _ ∨ _))

def UUID_C_UUID_STRING_MAX : ℕ := 37
def UUID_ELEMENTS_NUM : ℕ := 11
def UUID_ELEMENTS_NUM_OLD : ℕ := 10

/-- `"%8lx-%4x-%4x-%2x%2x-%2x%2x%2x%2x%2x%2x"`. -/
def newFormat : List Conversion :=
  [.hex 8, .char '-', .hex 4, .char '-', .hex 4, .char '-', .hex 2, .hex 2, .char '-', .hex 2, .hex 2, .hex 2, .hex 2, .hex 2, .hex 2]

/-- `"%8lx%4x.%2x.%2x.%2x.%2x.%2x.%2x.%2x.%2x"`. -/
def oldFormat : List Conversion :=
  [.hex 8, .hex 4, .char '.', .hex 2, .char '.', .hex 2, .char '.', .hex 2, .char '.', .hex 2, .char '.', .hex 2, .char '.', .hex 2,
    .char '.', .hex 2, .char '.', .hex 2]

/-- The numbers of a UUID, in the order in which they are printed. -/
def uuid_t.numbers (uuid : uuid_t) : List ℕ :=
  [uuid.time_low.toNat, uuid.time_mid.toNat, uuid.time_hi_and_version.toNat, uuid.clock_seq_hi_and_reserved.toNat,
    uuid.clock_seq_low.toNat] ++ uuid.node.eaddr.map BitVec.toNat

/-- `uuid_to_string`, when it is given a place for the string. -/
def uuid_to_string (uuid : uuid_t) : Except uuid_string_status_t (List Char) :=
  if CHECK_STRUCTURE uuid then .ok (sprintf newFormat uuid.numbers) else .error .uuid_s_bad_version

/-- `uuid_new`, from the elements that were read. -/
def uuid_new (elements : List ℤ) : uuid_t where
  time_low := BitVec.ofInt 32 (elements.getD 0 0)
  time_mid := BitVec.ofInt 16 (elements.getD 1 0)
  time_hi_and_version := BitVec.ofInt 16 (elements.getD 2 0)
  clock_seq_hi_and_reserved := BitVec.ofInt 8 (elements.getD 3 0)
  clock_seq_low := BitVec.ofInt 8 (elements.getD 4 0)
  node := ⟨[BitVec.ofInt 8 (elements.getD 5 0), BitVec.ofInt 8 (elements.getD 6 0), BitVec.ofInt 8 (elements.getD 7 0),
    BitVec.ofInt 8 (elements.getD 8 0), BitVec.ofInt 8 (elements.getD 9 0), BitVec.ofInt 8 (elements.getD 10 0)], rfl⟩

/-- `uuid_old`, from the elements that were read, as a `uuid_t`: `time_high`, `time_low`, `reserved`, `family` and `host`
lie where the fields of a `uuid_t` do. -/
def uuid_old (elements : List ℤ) : uuid_t where
  time_low := BitVec.ofInt 32 (elements.getD 0 0)
  time_mid := BitVec.ofInt 16 (elements.getD 1 0)
  time_hi_and_version := 0
  clock_seq_hi_and_reserved := BitVec.ofInt 8 (elements.getD 2 0)
  clock_seq_low := BitVec.ofInt 8 (elements.getD 3 0)
  node := ⟨[BitVec.ofInt 8 (elements.getD 4 0), BitVec.ofInt 8 (elements.getD 5 0), BitVec.ofInt 8 (elements.getD 6 0),
    BitVec.ofInt 8 (elements.getD 7 0), BitVec.ofInt 8 (elements.getD 8 0), BitVec.ofInt 8 (elements.getD 9 0)], rfl⟩

/-- The end of `uuid_from_string`. -/
def checkedUuid (uuid_ptr : uuid_t) : Except uuid_string_status_t uuid_t :=
  if CHECK_STRUCTURE uuid_ptr then .ok uuid_ptr else .error .uuid_s_bad_version

def uuid_from_string (uuid_string : List Char) : Except uuid_string_status_t uuid_t :=
  if uuid_string = [] then .ok dce.sec.uuid_g_nil_uuid
  else if uuid_string.length ≠ UUID_C_UUID_STRING_MAX - 1 then .error .uuid_s_invalid_string_uuid
  else if uuid_string[8]? = some '-' then
    let elements := sscanf newFormat uuid_string
    if elements.length ≠ UUID_ELEMENTS_NUM then .error .uuid_s_invalid_string_uuid else checkedUuid (uuid_new elements)
  else
    let elements := sscanf oldFormat uuid_string
    if elements.length ≠ UUID_ELEMENTS_NUM_OLD then .error .uuid_s_invalid_string_uuid else checkedUuid (uuid_old elements)

/-- A string of eight digits, three groups of four and one of twelve, or of twelve digits and eight groups of two, and the UUID
that has these digits at their positions. -/
def Spelled (uuid_string : List Char) (uuid : uuid_t) : Prop :=
  Spells newFormat uuid_string uuid.numbers ∨
    ∃ time_high time_low family host, Spells oldFormat uuid_string (time_high :: time_low :: family :: host) ∧
      uuid.numbers = time_high :: time_low :: 0 :: family :: host

/-- The conversion of a string is exact: it succeeds for the empty string and for a string that spells a UUID of a known
variant, and gives what the string spells. -/
def ConvertsExactly (uuid_string : List Char) : Prop :=
  ∀ uuid, uuid_from_string uuid_string = .ok uuid ↔
    uuid_string = [] ∧ uuid = dce.sec.uuid_g_nil_uuid ∨ Spelled uuid_string uuid ∧ CHECK_STRUCTURE uuid

/-- The characters go with the format, for a number of a known variant at a place in it, but they do not spell all numbers
with all their digits: there are blanks, a sign or `0x` in front of a number, a number has fewer digits than it should have, or
there is something behind the last. -/
def LooselySpelledAs (format : List Conversion) (variant : ℕ) (s : List Char) : Prop :=
  (∃ numbers rest, Scans format s numbers rest ∧
    KnownVariant (BitVec.ofInt 8 ((numbers.map Spelling.value).getD variant 0))) ∧ ¬∃ vs, Spells format s vs

/-- A string of 36 characters that is a loose spelling of a UUID of a known variant. -/
def LooselySpelled (uuid_string : List Char) : Prop :=
  uuid_string.length = 36 ∧
    if uuid_string[8]? = some '-' then LooselySpelledAs newFormat 3 uuid_string else LooselySpelledAs oldFormat 2 uuid_string

/-- What one of the two halves of `uuid_from_string` reads. -/
def ReadAs (format : List Conversion) (make : List ℤ → uuid_t) (s : List Char) (uuid : uuid_t) : Prop :=
  ∃ numbers rest, Scans format s numbers rest ∧ make (numbers.map Spelling.value) = uuid ∧ CHECK_STRUCTURE uuid

/-- What the digits of a string spell in one of the two forms. -/
def SpelledAs (format : List Conversion) (make : List ℤ → uuid_t) (s : List Char) (uuid : uuid_t) : Prop :=
  ∃ vs : List ℕ, Spells format s vs ∧ make (vs.map Nat.cast) = uuid

theorem checkedUuid_ok_iff {uuid_ptr uuid : uuid_t} :
    checkedUuid uuid_ptr = .ok uuid ↔ uuid_ptr = uuid ∧ CHECK_STRUCTURE uuid := by
  unfold checkedUuid
  split_ifs with hcheck
  · constructor
    · intro h
      obtain rfl := Except.ok.inj h
      exact ⟨rfl, hcheck⟩
    · rintro ⟨rfl, -⟩
      rfl
  · constructor
    · intro h
      exact absurd h (by simp)
    · rintro ⟨rfl, h⟩
      exact absurd h hcheck

variable {s : List Char} {uuid : uuid_t} {vs : List ℕ}

theorem elements_ok_iff {format : List Conversion} (hends : EndsHex format) {make : List ℤ → uuid_t} {n : ℕ}
    (hn : (widths format).length = n) :
    (if (sscanf format s).length ≠ n then .error .uuid_s_invalid_string_uuid else checkedUuid (make (sscanf format s))) =
        Except.ok uuid ↔ ReadAs format make s uuid := by
  constructor
  · intro h
    by_cases hlength : (sscanf format s).length = n
    · rw [if_neg (not_not.mpr hlength)] at h
      obtain ⟨hmake, hcheck⟩ := checkedUuid_ok_iff.mp h
      obtain ⟨numbers, rest, hscans, hnumbers⟩ := (sscanf_iff hends).mp ⟨rfl, hlength.trans hn.symm⟩
      exact ⟨numbers, rest, hscans, hnumbers ▸ hmake, hcheck⟩
    · rw [if_pos hlength] at h
      exact absurd h (by simp)
  · rintro ⟨numbers, rest, hscans, hmake, hcheck⟩
    obtain ⟨hvs, hlength⟩ := (sscanf_iff hends).mpr ⟨numbers, rest, hscans, rfl⟩
    rw [hvs, if_neg (not_not.mpr (hlength.trans hn))]
    exact checkedUuid_ok_iff.mpr ⟨hmake, hcheck⟩

theorem readAs_iff {format : List Conversion} (hends : EndsHex format) (hpos : ∀ w ∈ widths format, 0 < w)
    {make : List ℤ → uuid_t} {variant : ℕ}
    (hvariant : ∀ vs, (make vs).clock_seq_hi_and_reserved = BitVec.ofInt 8 (vs.getD variant 0)) (s : List Char) :
    (∀ uuid, ReadAs format make s uuid ↔ SpelledAs format make s uuid ∧ CHECK_STRUCTURE uuid) ↔
      ¬LooselySpelledAs format variant s := by
  constructor
  · rintro h ⟨⟨numbers, rest, hscans, hknown⟩, hnone⟩
    rw [← hvariant] at hknown
    obtain ⟨⟨vs, hspells, -⟩, -⟩ := (h _).mp ⟨numbers, rest, hscans, rfl, hknown⟩
    exact hnone ⟨vs, hspells⟩
  · intro hnot uuid
    constructor
    · rintro ⟨numbers, rest, hscans, rfl, hcheck⟩
      have hspells : ∃ vs, Spells format s vs := by
        by_contra hnone
        refine hnot ⟨⟨numbers, rest, hscans, ?_⟩, hnone⟩
        rw [← hvariant]
        exact hcheck
      obtain ⟨vs, hspells⟩ := hspells
      obtain ⟨numbers', hscans', -, hvs⟩ := (spells_iff hpos).mp hspells
      exact ⟨⟨vs, hspells, by rw [← hvs, hscans.values_unique hends hscans']⟩, hcheck⟩
    · rintro ⟨⟨vs, hspells, hmake⟩, hcheck⟩
      obtain ⟨numbers, hscans, -, hvs⟩ := (spells_iff hpos).mp hspells
      exact ⟨numbers, [], hscans, hvs ▸ hmake, hcheck⟩

theorem eq_of_length_six {l : List Byte} (h : l.length = 6) : ∃ n0 n1 n2 n3 n4 n5, l = [n0, n1, n2, n3, n4, n5] := by
  refine ⟨l[0], l[1], l[2], l[3], l[4], l[5], List.ext_getElem h fun i hi _ => ?_⟩
  have hlt : i < 6 := h ▸ hi
  interval_cases i <;> rfl

theorem uuid_new_numbers (uuid : uuid_t) : uuid_new (uuid.numbers.map Nat.cast) = uuid := by
  obtain ⟨time_low, time_mid, time_hi, clock_seq_hi, clock_seq_low, ⟨eaddr, hlength⟩⟩ := uuid
  obtain ⟨n0, n1, n2, n3, n4, n5, rfl⟩ := eq_of_length_six hlength
  simp [uuid_new, uuid_t.numbers]

theorem numbers_uuid_new (h : List.Forall₂ (fun v w => v < 16 ^ w) vs (widths newFormat)) :
    (uuid_new (vs.map Nat.cast)).numbers = vs := by
  simp only [newFormat, widths, List.forall₂_cons_right_iff, List.forall₂_nil_right_iff] at h
  obtain ⟨v0, _, h0, ⟨v1, _, h1, ⟨v2, _, h2, ⟨v3, _, h3, ⟨v4, _, h4, ⟨v5, _, h5, ⟨v6, _, h6, ⟨v7, _, h7, ⟨v8, _, h8,
    ⟨v9, _, h9, ⟨v10, _, h10, rfl, rfl⟩, rfl⟩, rfl⟩, rfl⟩, rfl⟩, rfl⟩, rfl⟩, rfl⟩, rfl⟩, rfl⟩, rfl⟩ := h
  norm_num at h0 h1 h2 h3 h4 h5 h6 h7 h8 h9 h10
  simp [uuid_new, uuid_t.numbers]
  omega

theorem numbers_uuid_old (h : List.Forall₂ (fun v w => v < 16 ^ w) vs (widths oldFormat)) :
    ∃ time_high time_low family host, vs = time_high :: time_low :: family :: host ∧
      (uuid_old (vs.map Nat.cast)).numbers = time_high :: time_low :: 0 :: family :: host := by
  simp only [oldFormat, widths, List.forall₂_cons_right_iff, List.forall₂_nil_right_iff] at h
  obtain ⟨v0, _, h0, ⟨v1, _, h1, ⟨v2, _, h2, ⟨v3, _, h3, ⟨v4, _, h4, ⟨v5, _, h5, ⟨v6, _, h6, ⟨v7, _, h7, ⟨v8, _, h8,
    ⟨v9, _, h9, rfl, rfl⟩, rfl⟩, rfl⟩, rfl⟩, rfl⟩, rfl⟩, rfl⟩, rfl⟩, rfl⟩, rfl⟩ := h
  norm_num at h0 h1 h2 h3 h4 h5 h6 h7 h8 h9
  refine ⟨v0, v1, v2, [v3, v4, v5, v6, v7, v8, v9], rfl, ?_⟩
  simp [uuid_old, uuid_t.numbers]
  omega

theorem uuid_t.numbers_injective {uuid uuid' : uuid_t} (h : uuid.numbers = uuid'.numbers) : uuid = uuid' := by
  rw [← uuid_new_numbers uuid, ← uuid_new_numbers uuid', h]

theorem uuid_t.numbers_lt (uuid : uuid_t) : List.Forall₂ (fun v w => v < 16 ^ w) uuid.numbers (widths newFormat) := by
  obtain ⟨time_low, time_mid, time_hi, clock_seq_hi, clock_seq_low, ⟨eaddr, hlength⟩⟩ := uuid
  obtain ⟨n0, n1, n2, n3, n4, n5, rfl⟩ := eq_of_length_six hlength
  exact .cons time_low.isLt (.cons time_mid.isLt (.cons time_hi.isLt (.cons clock_seq_hi.isLt (.cons clock_seq_low.isLt
    (.cons n0.isLt (.cons n1.isLt (.cons n2.isLt (.cons n3.isLt (.cons n4.isLt (.cons n5.isLt .nil))))))))))

theorem spelledAs_new :
    SpelledAs newFormat uuid_new s uuid ↔ Spells newFormat s uuid.numbers := by
  constructor
  · rintro ⟨vs, hspells, rfl⟩
    rw [numbers_uuid_new hspells.lt]
    exact hspells
  · exact fun hspells => ⟨uuid.numbers, hspells, uuid_new_numbers uuid⟩

theorem spelledAs_old :
    SpelledAs oldFormat uuid_old s uuid ↔ ∃ time_high time_low family host,
      Spells oldFormat s (time_high :: time_low :: family :: host) ∧
        uuid.numbers = time_high :: time_low :: 0 :: family :: host := by
  constructor
  · rintro ⟨vs, hspells, rfl⟩
    obtain ⟨time_high, time_low, family, host, rfl, hnumbers⟩ := numbers_uuid_old hspells.lt
    exact ⟨time_high, time_low, family, host, hspells, hnumbers⟩
  · rintro ⟨time_high, time_low, family, host, hspells, hnumbers⟩
    obtain ⟨time_high', time_low', family', host', hvs, hnumbers'⟩ := numbers_uuid_old hspells.lt
    refine ⟨_, hspells, uuid_t.numbers_injective ?_⟩
    rw [hnumbers', hnumbers]
    simp only [List.cons.injEq] at hvs
    obtain ⟨rfl, rfl, rfl, rfl⟩ := hvs
    rfl

theorem new_hyphen (h : Spells newFormat s vs) : s.length = 36 ∧ s[8]? = some '-' := by
  refine ⟨h.length, ?_⟩
  cases h with
  | hex hlength _ h =>
    cases h with
    | char h => rw [List.getElem?_append_right hlength.le, hlength]; rfl

theorem old_hyphen (h : Spells oldFormat s vs) : s.length = 36 ∧ s[8]? ≠ some '-' := by
  refine ⟨h.length, ?_⟩
  cases h with
  | hex hlength _ h =>
    cases h with
    | hex hlength' hhex h =>
      rw [List.getElem?_append_right hlength.le, hlength, List.getElem?_append_left (by omega)]
      intro hhyphen
      exact absurd (hhex '-' (List.mem_of_getElem? hhyphen)) (by decide)

theorem Spelled.length (h : Spelled s uuid) : s.length = 36 := by
  rcases h with h | ⟨time_high, time_low, family, host, h, -⟩
  · exact (new_hyphen h).1
  · exact (old_hyphen h).1

theorem spelled_iff : Spelled s uuid ↔
    if s[8]? = some '-' then SpelledAs newFormat uuid_new s uuid else SpelledAs oldFormat uuid_old s uuid := by
  rw [spelledAs_new, spelledAs_old]
  by_cases hhyphen : s[8]? = some '-'
  · rw [if_pos hhyphen]
    constructor
    · rintro (h | ⟨time_high, time_low, family, host, h, -⟩)
      · exact h
      · exact absurd hhyphen (old_hyphen h).2
    · exact fun h => .inl h
  · rw [if_neg hhyphen]
    constructor
    · rintro (h | h)
      · exact absurd (new_hyphen h).2 hhyphen
      · exact h
    · exact fun h => .inr h

theorem uuid_from_string_ok_iff (hlength : s.length = 36) : uuid_from_string s = .ok uuid ↔
    if s[8]? = some '-' then ReadAs newFormat uuid_new s uuid else ReadAs oldFormat uuid_old s uuid := by
  have hne : s ≠ [] := fun hnil => absurd (congrArg List.length hnil) (by simp [hlength])
  have hright : ¬s.length ≠ UUID_C_UUID_STRING_MAX - 1 := not_not.mpr hlength
  unfold uuid_from_string
  rw [if_neg hne, if_neg hright]
  by_cases hhyphen : s[8]? = some '-'
  · rw [if_pos hhyphen, if_pos hhyphen]
    exact elements_ok_iff (by decide) rfl
  · rw [if_neg hhyphen, if_neg hhyphen]
    exact elements_ok_iff (by decide) rfl

theorem convertsExactly_of_length (hlength : s.length ≠ 36) : ConvertsExactly s := by
  intro uuid
  have hnot : ¬(Spelled s uuid ∧ CHECK_STRUCTURE uuid) := fun h => hlength h.1.length
  have hwrong : s.length ≠ UUID_C_UUID_STRING_MAX - 1 := hlength
  unfold uuid_from_string
  by_cases hnil : s = []
  · rw [if_pos hnil]
    constructor
    · intro h
      exact .inl ⟨hnil, (Except.ok.inj h).symm⟩
    · rintro (⟨-, rfl⟩ | h)
      · rfl
      · exact absurd h hnot
  · rw [if_neg hnil, if_pos hwrong]
    constructor
    · intro h
      exact absurd h (by simp)
    · rintro (⟨h, -⟩ | h)
      · exact absurd h hnil
      · exact absurd h hnot

/-- UUIDs of a known variant come back from their strings. The conversion of a string is exact unless the string is a loose
spelling. -/
theorem uuid_strings_exact_iff (uuid : uuid_t) (s : List Char) :
    (CHECK_STRUCTURE uuid → ∃ s, uuid_to_string uuid = .ok s ∧ uuid_from_string s = .ok uuid) ∧
      (ConvertsExactly s ↔ ¬LooselySpelled s) := by
  constructor
  · intro hcheck
    have hspells := spells_sprintf uuid.numbers_lt
    obtain ⟨hlength, hhyphen⟩ := new_hyphen hspells
    refine ⟨_, if_pos hcheck, (uuid_from_string_ok_iff hlength).mpr ?_⟩
    rw [if_pos hhyphen]
    obtain ⟨numbers, hscans, -, hvs⟩ := (spells_iff (by decide)).mp hspells
    exact ⟨numbers, [], hscans, by rw [hvs, uuid_new_numbers], hcheck⟩
  · by_cases hlength : s.length = 36
    · have hne : s ≠ [] := fun hnil => absurd (congrArg List.length hnil) (by simp [hlength])
      unfold ConvertsExactly LooselySpelled
      simp only [uuid_from_string_ok_iff hlength, spelled_iff, hne, hlength, false_and, false_or, true_and]
      by_cases hhyphen : s[8]? = some '-'
      · simp only [if_pos hhyphen]
        exact readAs_iff (by decide) (by decide) (fun vs => rfl) s
      · simp only [if_neg hhyphen]
        exact readAs_iff (by decide) (by decide) (fun vs => rfl) s
    · exact ⟨fun _ h => hlength h.1, fun _ => convertsExactly_of_length hlength⟩

/-- A sign stands in the place of a digit. -/
theorem sign_converted : ¬ConvertsExactly "+1234567-1234-1234-8234-123456789012".toList := by
  intro hexact
  have hfrom : uuid_from_string "+1234567-1234-1234-8234-123456789012".toList =
      .ok ⟨0x1234567, 0x1234, 0x1234, 0x82, 0x34, ⟨[0x12, 0x34, 0x56, 0x78, 0x90, 0x12], rfl⟩⟩ := by decide +kernel
  rcases (hexact _).mp hfrom with ⟨hnil, -⟩ | ⟨h, -⟩
  · exact absurd hnil (by decide)
  · have hdigit : isHex '+' = true := by
      rcases h with h | ⟨time_high, time_low, family, host, h, -⟩
      · exact h.head rfl
      · exact h.head rfl
    exact absurd hdigit (by decide)

end dce.rpc
