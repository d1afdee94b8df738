import Dce.Lib.Follows
import Dce.Rpc.StringBinding

open lib

namespace dce.rpc.combind

/-- A search of a string comes, in its own paces, to an escape whose escaped character is the last one of the string. -/
inductive Overruns (term_set : List Char) : Bool → List Char → Prop where
  | escape (escaped : Bool) (c : Char) : Overruns term_set escaped ['\\', c]
  | skip {c : Char} : c ≠ '\\' → Overruns term_set true [c]
  | after_escape (escaped : Bool) {c c' : Char} {ptr : List Char} :
      Overruns term_set (c == '\\') ptr → Overruns term_set escaped ('\\' :: c :: c' :: ptr)
  | after_skip {c c' : Char} {ptr : List Char} :
      c ≠ '\\' → Overruns term_set false ptr → Overruns term_set true (c :: c' :: ptr)
  | after_char {c : Char} {ptr : List Char} :
      c ≠ '\\' → c ∉ term_set → Overruns term_set false ptr → Overruns term_set false (c :: ptr)

/-- A string ends in a backslash that escapes nothing. -/
inductive EndsOpen : List Char → Prop where
  | here : EndsOpen ['\\']
  | after_escape {c : Char} {ptr : List Char} : EndsOpen ptr → EndsOpen ('\\' :: c :: ptr)
  | after_char {c : Char} {ptr : List Char} : c ≠ '\\' → EndsOpen ptr → EndsOpen (c :: ptr)

theorem search_overruns {term_set : List Char} {escaped : Bool} {ptr : List Char} (h : Overruns term_set escaped ptr)
    (count : ℕ) : rpc__strcspn.search term_set escaped count ptr = .error .past_nul := by
  induction h generalizing count with
  | escape escaped c => rfl
  | skip hc =>
    rw [rpc__strcspn.search.eq_def]
    simp [hc]
  | after_escape escaped h ih => exact ih (count + 1)
  | after_skip hc h ih =>
    rw [rpc__strcspn.search.eq_def]
    simpa [hc] using ih (count + 1)
  | after_char hc hterm h ih =>
    rw [rpc__strcspn.search.eq_def]
    simpa [hc, hterm] using ih (count + 1)

theorem search_ok {term_set : List Char} {escaped : Bool} {ptr : List Char} (h : ¬ Overruns term_set escaped ptr)
    (count : ℕ) : ∃ found, rpc__strcspn.search term_set escaped count ptr = .ok found ∧
      (found = 0 ∨ count ≤ found ∧ found < count + ptr.length) := by
  fun_induction rpc__strcspn.search term_set escaped count ptr with
  | case1 => exact ⟨0, rfl, .inl rfl⟩
  | case2 => exact ⟨0, rfl, .inl rfl⟩
  | case3 => exact absurd (.escape _ _) h
  | case4 escaped count c c' ptr ih =>
    obtain ⟨found, hfound, hbound⟩ := ih fun hoverruns => h (.after_escape _ hoverruns)
    refine ⟨found, hfound, ?_⟩
    simp only [List.length_cons]
    omega
  | case5 count c hc => exact absurd (.skip hc) h
  | case6 count c hc c' ptr ih =>
    obtain ⟨found, hfound, hbound⟩ := ih fun hoverruns => h (.after_skip hc hoverruns)
    refine ⟨found, hfound, ?_⟩
    simp only [List.length_cons]
    omega
  | case7 escaped count c ptr hc hescaped hterm =>
    refine ⟨count, rfl, .inr ⟨Nat.le_refl _, ?_⟩⟩
    simp only [List.length_cons]
    omega
  | case8 escaped count c ptr hc hescaped hterm ih =>
    obtain rfl : escaped = false := by simpa using hescaped
    obtain ⟨found, hfound, hbound⟩ := ih fun hoverruns => h (.after_char hc hterm hoverruns)
    refine ⟨found, hfound, ?_⟩
    simp only [List.length_cons]
    omega

/-- The number that a search has, 0 also where it runs over the end. -/
def found (ptr term_set : List Char) : ℕ := (rpc__strcspn ptr term_set).toOption.getD 0

theorem strcspn_overruns {ptr term_set : List Char} (h : Overruns term_set false ptr) :
    strcspn ptr term_set = .error (.fault .past_nul) := by
  rw [strcspn, rpc__strcspn, search_overruns h]
  rfl

theorem strcspn_found {ptr term_set : List Char} (h : ¬ Overruns term_set false ptr) :
    strcspn ptr term_set = .ok (found ptr term_set) := by
  obtain ⟨n, hfound, -⟩ := search_ok h 1
  rw [found, strcspn, rpc__strcspn, hfound]
  rfl

theorem found_le (ptr term_set : List Char) : found ptr term_set ≤ ptr.length := by
  by_cases h : Overruns term_set false ptr
  · rw [found, rpc__strcspn, search_overruns h]
    exact Nat.zero_le _
  · obtain ⟨n, hfound, hbound⟩ := search_ok h 1
    rw [found, rpc__strcspn, hfound]
    change n ≤ ptr.length
    omega

theorem strsqz_open {text : List Char} (h : EndsOpen text) : rpc__strsqz text = .error .past_nul := by
  induction h with
  | here => rfl
  | after_escape h ih =>
    rw [rpc__strsqz.eq_def]
    simp [ih, Except.map]
  | @after_char c ptr hc h ih =>
    rw [rpc__strsqz.eq_def]
    cases hblank : isBlank c <;> simp [hc, hblank, ih, Except.map]

theorem strsqz_ok {text : List Char} (h : ¬ EndsOpen text) :
    ∃ squeezed, rpc__strsqz text = .ok squeezed ∧ squeezed.length ≤ text.length := by
  fun_induction rpc__strsqz text with
  | case1 => exact ⟨[], rfl, Nat.le_refl _⟩
  | case2 => exact absurd .here h
  | case3 c' ptr ih =>
    obtain ⟨squeezed, hsqueezed, hlen⟩ := ih fun hopen => h (.after_escape hopen)
    refine ⟨'\\' :: c' :: squeezed, by rw [hsqueezed]; rfl, ?_⟩
    simp only [List.length_cons]
    omega
  | case4 c ptr hc hblank ih =>
    obtain ⟨squeezed, hsqueezed, hlen⟩ := ih fun hopen => h (.after_char hc hopen)
    refine ⟨squeezed, hsqueezed, ?_⟩
    simp only [List.length_cons]
    omega
  | case5 c ptr hc hblank ih =>
    obtain ⟨squeezed, hsqueezed, hlen⟩ := ih fun hopen => h (.after_char hc hopen)
    refine ⟨c :: squeezed, by rw [hsqueezed]; rfl, ?_⟩
    simp only [List.length_cons]
    omega

abbrev Texts := Part → Option (List Char)

/-- Where a parse is in the string, between two of its searches. -/
inductive Place where
  | string_object_uuid (ptr : List Char) (texts : Texts)
  | protseq (ptr : List Char) (texts : Texts)
  | netaddr (ptr : List Char) (texts : Texts)
  /-- At the head of the loop over the options. -/
  | option (count : ℕ) (ptr : List Char) (texts : Texts)
  /-- Behind the tag of an option. -/
  | value (get_endpoint : Bool) (ptr : List Char) (texts : Texts)
  | finish (texts : Texts)

section Walk

variable (wanted : Part → Bool)

/-- A text becomes a result when the caller asked for it. -/
def keep (part : Part) (text : List Char) (texts : Texts) : Texts :=
  if wanted part then Function.update texts part (some text) else texts

/-- A parse leaves the memory of its strings at the place. -/
def Place.Strays : Place → Prop
  | .string_object_uuid ptr _ => Overruns ['@'] false ptr
  | .protseq ptr _ => Overruns [':'] false ptr
  | .netaddr ptr _ => Overruns ['['] false ptr
  | .option count ptr _ => 0 < count ∧ ptr ≠ [] ∧ Overruns ['=', ','] false ptr
  | .value _ ptr _ => Overruns [',', ']'] false ptr
  | .finish texts => ∃ part text, wanted part = true ∧ texts part = some text ∧ EndsOpen text

def behindTag (ptr : List Char) (texts : Texts) : Place :=
  let count := found ptr ['=', ',']
  if count = 0 ∨ ptr[count - 1]? ≠ some '=' then .value true ptr texts
  else
    let ptr' := ptr.dropWhile isBlank
    let count := count - (ptr.length - ptr'.length)
    if ptr'.take (count - 1) = endpointTag.take (count - 1) then .value true (ptr'.drop count) texts
    else .value false ptr' texts

def behindValue (get_endpoint : Bool) (ptr : List Char) (texts : Texts) : Option Place :=
  let count := found ptr [',', ']']
  if get_endpoint then
    if wanted .endpoint then
      if count = 0 ∨ (texts .endpoint).isSome then none
      else
        some (.option count (ptr.drop count) (Function.update texts .endpoint (some ((ptr.take (count - 1)).filter (· ≠ '\\')))))
    else some (.option count (ptr.drop count) texts)
  else if count = 0 ∧ ptr ≠ [] then none
  else if wanted .network_options then
    if count = 0 then none
    else
      some (.option count (ptr.drop count)
        (Function.update texts .network_options (some ((texts .network_options).getD [] ++ ptr.take count))))
  else some (.option count (ptr.drop count) texts)

/-- The next place, `none` at the last one and where the string is rejected. -/
def Place.next : Place → Option Place
  | .string_object_uuid ptr texts =>
    let count := found ptr ['@']
    some (.protseq (ptr.drop count) (keep wanted .string_object_uuid (ptr.take (count - 1)) texts))
  | .protseq ptr texts =>
    let count := found ptr [':']
    some (.netaddr (ptr.drop count) (keep wanted .protseq (ptr.take (count - 1)) texts))
  | .netaddr ptr texts =>
    let count := found ptr ['[']
    if count = 0 then some (.finish (keep wanted .netaddr ptr texts))
    else some (.option count (ptr.drop count) (keep wanted .network_options [] (keep wanted .netaddr (ptr.take (count - 1)) texts)))
  | .option count ptr texts => some (if 0 < count ∧ ptr ≠ [] then behindTag ptr texts else .finish texts)
  | .value get_endpoint ptr texts => behindValue wanted get_endpoint ptr texts
  | .finish _ => none

def Place.Step (p q : Place) : Prop := ¬ p.Strays wanted ∧ p.next wanted = some q

def Place.Rejects (p : Place) : Prop := ¬ p.Strays wanted ∧ p.next wanted = none ∧ ∀ texts, p ≠ .finish texts

theorem step_rightUnique : Relator.RightUnique (Place.Step wanted) := fun _ _ _ hq hr =>
  Option.some.inj (hq.2.symm.trans hr.2)

def Comes (string_binding : List Char) (p : Place) : Prop :=
  Relation.ReflTransGen (Place.Step wanted) (.string_object_uuid string_binding fun _ => none) p

/-- The parse of a string comes to a place where it leaves the memory of its strings. -/
def Strays (string_binding : List Char) : Prop := ∃ p, Comes wanted string_binding p ∧ p.Strays wanted

end Walk

end dce.rpc.combind
