import Dce.Rpc.StringBindingSafe

open lib Relation

namespace dce.rpc.combind

def special : List Char := ['@', ':', '[', ']', ',', '=', '\\']

/-- A text without white space in which the special characters are escaped. -/
inductive Escaped : List Char → Prop where
  | nil : Escaped []
  | plain {c : Char} {text : List Char} : c ∉ special → isBlank c = false → Escaped text → Escaped (c :: text)
  | escape {c : Char} {text : List Char} : isBlank c = false → Escaped text → Escaped ('\\' :: c :: text)

def unescape : List Char → List Char
  | [] => []
  | [c] => [c]
  | c :: c' :: text => if c = '\\' then c' :: unescape text else c :: unescape (c' :: text)

/-- The text of an option list, from its tags and values. -/
def optionText : List (List Char × List Char) → List Char
  | [] => []
  | [option] => option.1 ++ '=' :: option.2
  | option :: option' :: options => option.1 ++ '=' :: option.2 ++ ',' :: optionText (option' :: options)

/-- The components of a string binding, as far as there are any. -/
structure Components where
  string_object_uuid : Option (List Char)
  protseq : Option (List Char)
  netaddr : Option (List Char)
  endpoint : Option (List Char)
  network_options : Option (List (List Char × List Char))

namespace Components

variable (c : Components)

def texts : List (List Char) :=
  [c.string_object_uuid.getD [], c.protseq.getD [], c.netaddr.getD [], c.endpoint.getD []] ++
    (c.network_options.getD []).flatMap fun option => [option.1, option.2]

def WellEscaped : Prop := ∀ text ∈ c.texts, Escaped text

def HasEscape : Prop := ∃ text ∈ c.texts, '\\' ∈ text

def compose (granted : Bool) : Except Fault (string_status_t × Option Buffer) :=
  rpc_string_binding_compose c.string_object_uuid c.protseq c.netaddr c.endpoint (c.network_options.map optionText) granted

/-- Where there is memory enough, the parse of the composition has the components for its results. -/
def RoundTrip : Prop :=
  ∀ mem, (∀ call, mem.grants call = true) → ∃ buffer o, c.compose true = .ok (.rpc_s_ok, some buffer) ∧
    rpc_string_binding_parse (fun _ => true) buffer.text mem = .ok (.rpc_s_ok, o) ∧
    o.text .string_object_uuid = c.string_object_uuid.getD [] ∧ o.text .protseq = c.protseq.getD [] ∧
    o.text .netaddr = c.netaddr.getD [] ∧ o.text .endpoint = unescape (c.endpoint.getD []) ∧
    o.text .network_options = optionText (c.network_options.getD [])

end Components

theorem composed_fits (string_object_uuid protseq netaddr endpoint network_options : Option (List Char)) :
    rpc_string_binding_compose string_object_uuid protseq netaddr endpoint network_options true =
      .ok (.rpc_s_ok, some ⟨string_binding_size string_object_uuid protseq netaddr endpoint network_options,
        string_binding_text string_object_uuid protseq netaddr endpoint network_options⟩) := by
  rw [rpc_string_binding_compose, if_pos rfl]
  refine if_pos ?_
  rw [string_binding_text, string_binding_size]
  have huuid : (if string_object_uuid.getD [] ≠ [] then string_object_uuid.getD [] ++ ['@'] else []).length =
      if string_object_uuid.getD [] ≠ [] then (string_object_uuid.getD []).length + 1 else 0 := by
    split_ifs <;> simp
  have hprotseq : (protseq.elim [] fun text => text ++ [':']).length = protseq.elim 0 fun text => text.length + 1 := by
    cases protseq <;> simp
  have hnetaddr : (netaddr.getD []).length ≤ netaddr.elim 0 fun text => text.length + 1 := by
    cases netaddr <;> simp
  have hoptions : (if endpoint.isSome || network_options.isSome then
      ['['] ++ endpoint.getD [] ++ (if endpoint.isSome && network_options.getD [] ≠ [] then [','] else []) ++
        network_options.getD [] ++ [']']
      else []).length ≤
      (endpoint.elim 0 fun text => text.length + 2) + network_options.elim 0 fun text => text.length + 2 := by
    cases endpoint with
    | none => cases network_options <;> simp
    | some e =>
      cases network_options with
      | none => simp
      | some n =>
        simp only [Option.elim, Option.getD, Option.isSome, Bool.or_true, Bool.true_and, if_true, List.length_append,
          List.length_cons, List.length_nil]
        split_ifs <;> simp only [List.length_cons, List.length_nil] <;> omega
  rw [List.length_append, List.length_append, List.length_append, huuid, hprotseq]
  omega

section Searches

variable {term_set u r : List Char} {x : Char}

/-- A text that a search for the terminators passes one character after the other. -/
def Free (term_set u : List Char) : Prop := ∀ c ∈ u, c ≠ '\\' ∧ c ∉ term_set

theorem search_free_append (hfree : Free term_set u) (r : List Char) (count : ℕ) :
    rpc__strcspn.search term_set false count (u ++ r) = rpc__strcspn.search term_set false (count + u.length) r := by
  induction u generalizing count with
  | nil => rfl
  | cons c u ih =>
    obtain ⟨hescape, hterm⟩ := hfree c List.mem_cons_self
    rw [List.cons_append, rpc__strcspn.search.eq_def]
    simp only [hescape, hterm, Bool.false_eq_true, if_false]
    rw [ih fun c' hc' => hfree c' (List.mem_cons_of_mem c hc'), List.length_cons]
    congr 1
    omega

theorem not_overruns_of_ok {ptr : List Char} {n : ℕ} (h : rpc__strcspn ptr term_set = .ok n) :
    ¬ Overruns term_set false ptr := by
  intro hoverruns
  rw [rpc__strcspn, search_overruns hoverruns] at h
  cases h

theorem strcspn_free_cons (hfree : Free term_set u) (hx : x ∈ term_set) (hescape : x ≠ '\\') (r : List Char) :
    rpc__strcspn (u ++ x :: r) term_set = .ok (u.length + 1) := by
  rw [rpc__strcspn, search_free_append hfree, rpc__strcspn.search.eq_def]
  simp [hescape, hx, Nat.add_comm]

theorem strcspn_free (hfree : Free term_set u) : rpc__strcspn u term_set = .ok 0 := by
  have h := search_free_append hfree [] 1
  rwa [List.append_nil] at h

theorem found_of_ok {ptr : List Char} {n : ℕ} (h : rpc__strcspn ptr term_set = .ok n) : found ptr term_set = n := by
  rw [found, h]
  rfl

theorem strsqz_free (h : ∀ c ∈ u, c ≠ '\\' ∧ isBlank c = false) : rpc__strsqz u = .ok u := by
  induction u with
  | nil => rfl
  | cons c u ih =>
    obtain ⟨hescape, hblank⟩ := h c List.mem_cons_self
    rw [rpc__strsqz.eq_def]
    simp [hescape, hblank, ih fun c' hc' => h c' (List.mem_cons_of_mem c hc'), Except.map]

end Searches

section Walk

abbrev every : Part → Bool := fun _ => true

abbrev Walk (p q : Place) : Prop := ReflTransGen (Place.Step every) p q

variable {texts : Texts} {u r : List Char} {count : ℕ}

theorem step_of_search {p q : Place} {ptr term_set : List Char} {n : ℕ} (hsearch : rpc__strcspn ptr term_set = .ok n)
    (hstrays : p.Strays every → Overruns term_set false ptr) (hnext : found ptr term_set = n → p.next every = some q) :
    Place.Step every p q :=
  ⟨fun h => not_overruns_of_ok hsearch (hstrays h), hnext (found_of_ok hsearch)⟩

theorem uuid_step (hfree : Free ['@'] u) :
    Place.Step every (.string_object_uuid (u ++ '@' :: r) texts)
      (.protseq r (Function.update texts .string_object_uuid (some u))) := by
  refine step_of_search (strcspn_free_cons hfree List.mem_cons_self (by decide) r) id fun hfound => ?_
  simp [Place.next, hfound, keep]

theorem uuid_step_absent (hfree : Free ['@'] u) :
    Place.Step every (.string_object_uuid u texts) (.protseq u (Function.update texts .string_object_uuid (some []))) := by
  refine step_of_search (strcspn_free hfree) id fun hfound => ?_
  simp [Place.next, hfound, keep]

theorem protseq_step (hfree : Free [':'] u) :
    Place.Step every (.protseq (u ++ ':' :: r) texts) (.netaddr r (Function.update texts .protseq (some u))) := by
  refine step_of_search (strcspn_free_cons hfree List.mem_cons_self (by decide) r) id fun hfound => ?_
  simp [Place.next, hfound, keep]

theorem protseq_step_absent (hfree : Free [':'] u) :
    Place.Step every (.protseq u texts) (.netaddr u (Function.update texts .protseq (some []))) := by
  refine step_of_search (strcspn_free hfree) id fun hfound => ?_
  simp [Place.next, hfound, keep]

theorem netaddr_step (hfree : Free ['['] u) :
    Place.Step every (.netaddr (u ++ '[' :: r) texts)
      (.option (u.length + 1) r (Function.update (Function.update texts .netaddr (some u)) .network_options (some []))) := by
  refine step_of_search (strcspn_free_cons hfree List.mem_cons_self (by decide) r) id fun hfound => ?_
  simp [Place.next, hfound, keep]

theorem netaddr_step_absent (hfree : Free ['['] u) :
    Place.Step every (.netaddr u texts) (.finish (Function.update texts .netaddr (some u))) := by
  refine step_of_search (strcspn_free hfree) id fun hfound => ?_
  simp [Place.next, hfound, keep]

theorem end_step : Place.Step every (.option count [] texts) (.finish texts) := by
  refine ⟨fun h => h.2.1 rfl, ?_⟩
  simp [Place.next]

theorem endpoint_tag_step {ptr : List Char} (hcount : 0 < count) (hfree : Free ['=', ','] u)
    (hptr : ptr = u ++ [']'] ∨ ∃ r, ptr = u ++ ',' :: r) :
    Place.Step every (.option count ptr texts) (.value true ptr texts) := by
  rcases hptr with rfl | ⟨r, rfl⟩
  · have hfree' : Free ['=', ','] (u ++ [']']) := by
      intro c hc
      rcases List.mem_append.mp hc with hc | hc
      · exact hfree c hc
      · obtain rfl := List.mem_singleton.mp hc
        decide
    refine step_of_search (strcspn_free hfree') (fun h => h.2.2) fun hfound => ?_
    simp [Place.next, behindTag, hcount, hfound]
  · refine step_of_search (strcspn_free_cons hfree (by decide) (by decide) r) (fun h => h.2.2) fun hfound => ?_
    simp [Place.next, behindTag, hcount, hfound]

theorem endpoint_value_step {x : Char} (hfree : Free [',', ']'] u) (hx : x = ',' ∨ x = ']')
    (hnone : texts .endpoint = none) :
    Place.Step every (.value true (u ++ x :: r) texts)
      (.option (u.length + 1) r (Function.update texts .endpoint (some u))) := by
  have hmem : x ∈ [',', ']'] := by simpa using hx
  have hescape : x ≠ '\\' := by
    rintro rfl
    simp at hx
  have hkept : u.filter (· ≠ '\\') = u := List.filter_eq_self.mpr fun c hc => by simpa using (hfree c hc).1
  refine step_of_search (strcspn_free_cons hfree hmem hescape r) id fun hfound => ?_
  simp only [Place.next, behindValue, hfound, hnone, if_true, Option.isSome_none, Bool.false_eq_true, or_false,
    Nat.add_one_ne_zero, if_false, Nat.add_sub_cancel, List.take_left, hkept]
  simp

theorem tag_step {tag : List Char} (hcount : 0 < count) (htag : Free ['=', ','] tag) (hblank : ∀ c ∈ tag, isBlank c = false)
    (r : List Char) (texts : Texts) :
    Place.Step every (.option count (tag ++ '=' :: r) texts)
      (if tag <+: endpointTag then .value true r texts else .value false (tag ++ '=' :: r) texts) := by
  refine step_of_search (strcspn_free_cons htag (by decide) (by decide) r) (fun h => h.2.2) fun hfound => ?_
  have hhead : (tag ++ '=' :: r).dropWhile isBlank = tag ++ '=' :: r := by
    cases tag with
    | nil => rfl
    | cons c tag => rw [List.cons_append, List.dropWhile_cons_of_neg (by simp [hblank c List.mem_cons_self])]
  have hloop : 0 < count ∧ tag ++ '=' :: r ≠ [] := ⟨hcount, by simp⟩
  have hequal : tag = endpointTag.take tag.length ↔ tag <+: endpointTag := List.prefix_iff_eq_take.symm
  rw [Place.next, if_pos hloop, behindTag]
  simp only [hfound, hhead, Nat.add_sub_cancel, Nat.sub_self, Nat.sub_zero, List.take_left, Nat.add_one_ne_zero, false_or,
    List.getElem?_append_right (Nat.le_refl tag.length), List.getElem?_cons_zero, ne_eq, not_true, if_false, hequal]
  split_ifs
  · simp
  · rfl

theorem take_succ_length (u r : List Char) (x : Char) : (u ++ x :: r).take (u.length + 1) = u ++ [x] := by
  rw [List.append_cons, List.take_left' (by simp)]

theorem drop_succ_length (u r : List Char) (x : Char) : (u ++ x :: r).drop (u.length + 1) = r := by
  rw [List.append_cons, List.drop_left' (by simp)]

theorem option_walk {tag value acc : List Char} {x : Char} (hcount : 0 < count) (htag : Free ['=', ','] tag)
    (hblank : ∀ c ∈ tag, isBlank c = false) (hfree : Free [',', ']'] (tag ++ '=' :: value)) (hx : x = ',' ∨ x = ']')
    (hother : ¬ tag <+: endpointTag) (hacc : texts .network_options = some acc) :
    Walk (.option count (tag ++ '=' :: (value ++ x :: r)) texts)
      (.option ((tag ++ '=' :: value).length + 1) r
        (Function.update texts .network_options (some (acc ++ (tag ++ '=' :: (value ++ [x])))))) := by
  have hmem : x ∈ [',', ']'] := by simpa using hx
  have hescape : x ≠ '\\' := by
    rintro rfl
    simp at hx
  have hstep := tag_step hcount htag hblank (value ++ x :: r) texts
  rw [if_neg hother] at hstep
  refine .head hstep (.single ?_)
  have htext : tag ++ '=' :: (value ++ x :: r) = (tag ++ '=' :: value) ++ x :: r := by simp
  rw [htext]
  refine step_of_search (strcspn_free_cons hfree hmem hescape r) id fun hfound => ?_
  have htake := take_succ_length (tag ++ '=' :: value) r x
  have hdrop := drop_succ_length (tag ++ '=' :: value) r x
  have hassoc : (tag ++ '=' :: value) ++ [x] = tag ++ '=' :: (value ++ [x]) := by simp
  rw [hassoc] at htake
  simp only [Place.next, behindValue, hfound, hacc, htake, hdrop, Nat.add_one_ne_zero, false_and, if_false, if_true,
    Bool.false_eq_true, Option.getD_some]

def Plain (u : List Char) : Prop := ∀ c ∈ u, c ∉ special ∧ isBlank c = false

def PlainOptions (options : List (List Char × List Char)) : Prop := ∀ option ∈ options, Plain option.1 ∧ Plain option.2

theorem Plain.free {term_set : List Char} (h : Plain u) (hsub : term_set ⊆ special) : Free term_set u := fun c hc =>
  ⟨fun hescape => (h c hc).1 (by rw [hescape]; decide), fun hterm => (h c hc).1 (hsub hterm)⟩

theorem free_nil {term_set : List Char} : Free term_set [] := fun _ hc => absurd hc List.not_mem_nil

theorem free_append {term_set v : List Char} (hu : Free term_set u) (hv : Free term_set v) : Free term_set (u ++ v) :=
  fun c hc => (List.mem_append.mp hc).elim (hu c) (hv c)

theorem free_cons {term_set : List Char} {c : Char} (hescape : c ≠ '\\') (hterm : c ∉ term_set) (hu : Free term_set u) :
    Free term_set (c :: u) := fun _ hc' => (List.mem_cons.mp hc').elim (fun heq => heq ▸ ⟨hescape, hterm⟩) (hu _)

variable {options : List (List Char × List Char)}

theorem free_optionText {term_set : List Char} (h : PlainOptions options)
    (hsub : term_set ⊆ special) (hequals : '=' ∉ term_set) (hcomma : ',' ∉ term_set) : Free term_set (optionText options) := by
  have hone : ∀ option, option ∈ options → Free term_set (option.1 ++ '=' :: option.2) := fun option hoption =>
    free_append ((h option hoption).1.free hsub) (free_cons (by decide) hequals ((h option hoption).2.free hsub))
  fun_induction optionText options with
  | case1 => exact free_nil
  | case2 option => exact hone option List.mem_cons_self
  | case3 option option' options ih =>
    refine free_append (hone option List.mem_cons_self) (free_cons (by decide) hcomma ?_)
    exact ih (fun o ho => h o (List.mem_cons_of_mem _ ho)) fun o ho => hone o (List.mem_cons_of_mem _ ho)

theorem options_walk {acc : List Char} (hcount : 0 < count)
    (hne : options ≠ []) (hplain : PlainOptions options) (hother : ∀ option ∈ options, ¬ option.1 <+: endpointTag)
    (hacc : texts .network_options = some acc) :
    Walk (.option count (optionText options ++ [']']) texts)
      (.finish (Function.update texts .network_options (some (acc ++ (optionText options ++ [']']))))) := by
  have hfree : ∀ option, option ∈ options → Free [',', ']'] (option.1 ++ '=' :: option.2) := fun option hoption =>
    free_append ((hplain option hoption).1.free (by decide))
      (free_cons (by decide) (by decide) ((hplain option hoption).2.free (by decide)))
  have htag : ∀ option, option ∈ options → Free ['=', ','] option.1 := fun option hoption =>
    (hplain option hoption).1.free (by decide)
  have hblank : ∀ option, option ∈ options → ∀ c ∈ option.1, isBlank c = false := fun option hoption c hc =>
    ((hplain option hoption).1 c hc).2
  fun_induction optionText options generalizing count texts acc with
  | case1 => exact absurd rfl hne
  | case2 option =>
    have hmem := List.mem_singleton.mpr (Eq.refl option)
    have hwalk := option_walk (r := []) hcount (htag option hmem) (hblank option hmem) (hfree option hmem) (.inr rfl)
      (hother option hmem) hacc
    rw [List.append_assoc]
    exact hwalk.trans (.single end_step)
  | case3 option option' options ih =>
    have hmem : option ∈ option :: option' :: options := List.mem_cons_self
    have hwalk := option_walk (r := optionText (option' :: options) ++ [']']) hcount (htag option hmem) (hblank option hmem)
      (hfree option hmem) (.inl rfl) (hother option hmem) hacc
    have hrest := @ih (Function.update texts .network_options (some (acc ++ (option.1 ++ '=' :: (option.2 ++ [','])))))
      (option.1 ++ '=' :: option.2).length.succ
      (acc ++ (option.1 ++ '=' :: (option.2 ++ [',']))) (Nat.succ_pos _) (List.cons_ne_nil _ _)
      (fun o ho => hplain o (List.mem_cons_of_mem _ ho)) (fun o ho => hother o (List.mem_cons_of_mem _ ho))
      (Function.update_self _ _ _) (fun o ho => hfree o (List.mem_cons_of_mem _ ho))
      (fun o ho => htag o (List.mem_cons_of_mem _ ho)) fun o ho => hblank o (List.mem_cons_of_mem _ ho)
    rw [Function.update_idem] at hrest
    simpa using hwalk.trans hrest

theorem any_option_walk {tag value acc : List Char} {x : Char} (hcount : 0 < count) (htag : Plain tag) (hvalue : Plain value)
    (hx : x = ',' ∨ x = ']') (hacc : texts .network_options = some acc) (r : List Char) :
    (∃ p, Walk (.option count (tag ++ '=' :: (value ++ x :: r)) texts) p ∧ p.Rejects every) ∨
      ∃ count' texts' w, 0 < count' ∧
        Walk (.option count (tag ++ '=' :: (value ++ x :: r)) texts) (.option count' r texts') ∧
        texts' .network_options = some (acc ++ w) ∧ w.length ≤ (tag ++ '=' :: (value ++ [x])).length ∧
        (tag <+: endpointTag → w = []) := by
  have hblank : ∀ c ∈ tag, isBlank c = false := fun c hc => (htag c hc).2
  have hstep := tag_step hcount (htag.free (by decide)) hblank (value ++ x :: r) texts
  have hfree : Free [',', ']'] value := hvalue.free (by decide)
  have hmem : x ∈ [',', ']'] := by simpa using hx
  have hescape : x ≠ '\\' := by
    rintro rfl
    simp at hx
  by_cases hother : tag <+: endpointTag
  · rw [if_pos hother] at hstep
    cases hendpoint : texts .endpoint with
    | none =>
      refine .inr ⟨value.length + 1, Function.update texts .endpoint (some value), [], Nat.succ_pos _,
        .tail (.single hstep) (endpoint_value_step hfree hx hendpoint), ?_, Nat.zero_le _, fun _ => rfl⟩
      rw [Function.update_of_ne (by decide), hacc, List.append_nil]
    | some endpoint =>
      have hsearch := strcspn_free_cons hfree hmem hescape r
      refine .inl ⟨_, .single hstep, not_overruns_of_ok hsearch, ?_, fun texts' heq => Place.noConfusion heq⟩
      simp [Place.next, behindValue, hendpoint]
  · refine .inr ⟨_, _, tag ++ '=' :: (value ++ [x]), Nat.succ_pos _, option_walk hcount (htag.free (by decide)) hblank ?_ hx hother hacc,
      Function.update_self _ _ _, Nat.le_refl _, fun h => absurd h hother⟩
    exact free_append (htag.free (by decide)) (free_cons (by decide) (by decide) hfree)

theorem any_options_walk {acc : List Char} (hcount : 0 < count)
    (hne : options ≠ []) (hplain : PlainOptions options) (hacc : texts .network_options = some acc) :
    (∃ p, Walk (.option count (optionText options ++ [']']) texts) p ∧ p.Rejects every) ∨
      ∃ texts' w, Walk (.option count (optionText options ++ [']']) texts) (.finish texts') ∧
        texts' .network_options = some (acc ++ w) ∧ w.length ≤ (optionText options).length + 1 ∧
        ((∃ option ∈ options, option.1 <+: endpointTag) → w.length < (optionText options).length + 1) := by
  fun_induction optionText options generalizing count texts acc with
  | case1 => exact absurd rfl hne
  | case2 option =>
    obtain ⟨htag, hvalue⟩ := hplain option (List.mem_singleton.mpr rfl)
    have hassoc : option.1 ++ '=' :: option.2 ++ [']'] = option.1 ++ '=' :: (option.2 ++ ']' :: []) := by simp
    rw [hassoc]
    rcases any_option_walk hcount htag hvalue (.inr rfl) hacc [] with hrejects | ⟨count', texts', w, -, hwalk, hacc', hlen, hbad⟩
    · exact .inl hrejects
    · have hlen' : w.length ≤ (option.1 ++ '=' :: option.2).length + 1 := by
        simp only [List.length_append, List.length_cons, List.length_nil] at hlen ⊢
        omega
      refine .inr ⟨texts', w, hwalk.tail end_step, hacc', hlen', ?_⟩
      rintro ⟨option', hmem, hprefix⟩
      obtain rfl := List.mem_singleton.mp hmem
      rw [hbad hprefix]
      exact Nat.succ_pos _
  | case3 option option' options ih =>
    obtain ⟨htag, hvalue⟩ := hplain option List.mem_cons_self
    have hassoc : option.1 ++ '=' :: option.2 ++ ',' :: optionText (option' :: options) ++ [']'] =
        option.1 ++ '=' :: (option.2 ++ ',' :: (optionText (option' :: options) ++ [']'])) := by simp
    rw [hassoc]
    rcases any_option_walk hcount htag hvalue (.inl rfl) hacc (optionText (option' :: options) ++ [']']) with
      hrejects | ⟨count', texts', w, hcount', hwalk, hacc', hlen, hbad⟩
    · exact .inl hrejects
    rcases ih hcount' (List.cons_ne_nil _ _) (fun o ho => hplain o (List.mem_cons_of_mem _ ho)) hacc' with
      ⟨p, hrest, hrejects⟩ | ⟨texts'', w', hrest, hacc'', hlen', hbad'⟩
    · exact .inl ⟨p, hwalk.trans hrest, hrejects⟩
    refine .inr ⟨texts'', w ++ w', hwalk.trans hrest, by rw [hacc'', List.append_assoc], ?_, ?_⟩
    · simp only [List.length_append, List.length_cons, List.length_nil] at hlen ⊢
      omega
    · rintro ⟨o, hmem, hprefix⟩
      rcases List.mem_cons.mp hmem with rfl | hmem
      · rw [hbad hprefix]
        simp only [List.length_append, List.length_cons, List.nil_append]
        omega
      · have hshort := hbad' ⟨o, hmem, hprefix⟩
        simp only [List.length_append, List.length_cons, List.length_nil] at hlen ⊢
        omega

end Walk

end dce.rpc.combind
