import Dce.Rpc.StringBindingRoundTrip

open lib Relation

namespace dce.rpc.combind

section Results

variable {string_binding : List Char} {mem : MemStats}

theorem parse_of_finish {texts : Texts} {mem : MemStats} (hgrants : ∀ call, mem.grants call = true)
    (hcomes : Comes every string_binding (.finish texts)) (hstrays : ¬ (Place.finish texts).Strays every) :
    ∃ o, rpc_string_binding_parse every string_binding mem = .ok (.rpc_s_ok, o) ∧
      ∀ part, o.text part = squeezed part ((texts part).getD []) := by
  have hreads := parse_reads every mem string_binding
  rw [rpc_string_binding_parse]
  generalize parse every string_binding ⟨mem, fun _ => none⟩ = result at hreads
  have hunique : ∀ p, Comes every string_binding p → (∀ q, ¬ p.Step every q) → p = .finish texts := fun p hp hend =>
    ends_unique (step_rightUnique every) hp hcomes hend (finish_no_step every texts)
  cases hreads with
  | @value o p hwalk hgives =>
    obtain ⟨texts', rfl, -, -, hresults⟩ := hgives
    obtain rfl : texts' = texts := Place.finish.inj (hunique _ hwalk (finish_no_step every texts'))
    exact ⟨o, rfl, fun part => hresults part rfl⟩
  | @stop stop p hwalk hstops =>
    cases stop with
    | fault fault =>
      obtain rfl := hunique p hwalk (strays_no_step every hstops.2)
      exact absurd hstops.2 hstrays
    | cleanup status o =>
      obtain ⟨-, hrejects, -⟩ := hstops
      exact absurd (hunique p hwalk (rejects_no_step every hrejects)) (hrejects.2.2 texts)
  | @own stop hstarved =>
    cases stop with
    | fault fault => exact hstarved.elim
    | cleanup status o =>
      obtain ⟨-, ⟨call, hrefused⟩, -⟩ := hstarved
      rw [hgrants] at hrefused
      cases hrefused

theorem finish_of_parse {o : Outputs} (hparse : rpc_string_binding_parse every string_binding mem = .ok (.rpc_s_ok, o)) :
    ∃ texts, Comes every string_binding (.finish texts) ∧ ∀ part, o.text part = squeezed part ((texts part).getD []) := by
  have hreads := parse_reads every mem string_binding
  rw [rpc_string_binding_parse] at hparse
  generalize parse every string_binding ⟨mem, fun _ => none⟩ = result at hreads hparse
  cases hreads with
  | @value o' p hwalk hgives =>
    obtain ⟨texts, rfl, -, -, hresults⟩ := hgives
    obtain rfl : o' = o := (Prod.mk.inj (Except.ok.inj hparse)).2
    exact ⟨texts, hwalk, fun part => hresults part rfl⟩
  | @stop stop p hwalk hstops =>
    cases stop with
    | fault fault => cases hparse
    | cleanup status o' =>
      obtain ⟨rfl, -⟩ := hstops
      exact absurd (Prod.mk.inj (Except.ok.inj hparse)).1 (by decide)
  | @own stop hstarved =>
    cases stop with
    | fault fault => cases hparse
    | cleanup status o' =>
      obtain ⟨rfl, -⟩ := hstarved
      exact absurd (Prod.mk.inj (Except.ok.inj hparse)).1 (by decide)

theorem length_squeezed_options (text : List Char) : (squeezed .network_options text).length ≤ text.length - 1 := by
  rw [squeezed, if_pos rfl, List.length_dropLast]
  by_cases hopen : EndsOpen text
  · rw [strsqz_open hopen]
    exact Nat.zero_le _
  · obtain ⟨text', hsqueezed, hlen⟩ := strsqz_ok hopen
    rw [hsqueezed]
    exact Nat.sub_le_sub_right hlen 1

end Results

section Composed

variable {c : Components}

/-- The components are plain. -/
structure Components.Plain (c : Components) : Prop where
  string_object_uuid : dce.rpc.combind.Plain (c.string_object_uuid.getD [])
  protseq : dce.rpc.combind.Plain (c.protseq.getD [])
  netaddr : dce.rpc.combind.Plain (c.netaddr.getD [])
  endpoint : dce.rpc.combind.Plain (c.endpoint.getD [])
  network_options : PlainOptions (c.network_options.getD [])

variable {text : List Char}

theorem Escaped.plain_of_no_escape (h : Escaped text) (hno : '\\' ∉ text) : dce.rpc.combind.Plain text := by
  induction h with
  | nil => exact fun c hc => absurd hc List.not_mem_nil
  | plain hspecial hblank h ih =>
    intro c hc
    rcases List.mem_cons.mp hc with rfl | hc
    · exact ⟨hspecial, hblank⟩
    · exact ih (fun hmem => hno (List.mem_cons_of_mem _ hmem)) c hc
  | escape hblank h ih => exact absurd List.mem_cons_self hno

theorem Components.plain (hwell : c.WellEscaped) (hno : ¬ c.HasEscape) : c.Plain := by
  have hplain : ∀ text ∈ c.texts, dce.rpc.combind.Plain text := fun text htext =>
    (hwell text htext).plain_of_no_escape fun hmem => hno ⟨text, htext, hmem⟩
  refine ⟨hplain _ ?_, hplain _ ?_, hplain _ ?_, hplain _ ?_, fun option hoption => ⟨hplain _ ?_, hplain _ ?_⟩⟩
  · simp [Components.texts]
  · simp [Components.texts]
  · simp [Components.texts]
  · simp [Components.texts]
  · refine List.mem_append_right _ (List.mem_flatMap.mpr ⟨option, hoption, by simp⟩)
  · refine List.mem_append_right _ (List.mem_flatMap.mpr ⟨option, hoption, by simp⟩)

theorem unescape_plain (h : '\\' ∉ text) : unescape text = text := by
  fun_induction unescape text with
  | case1 => rfl
  | case2 => rfl
  | case3 c' text ih => exact absurd List.mem_cons_self h
  | case4 c c' text hc ih => rw [ih fun hmem => h (List.mem_cons_of_mem _ hmem)]

def brackets (c : Components) : List Char :=
  if c.endpoint.isSome || c.network_options.isSome then
    '[' :: (c.endpoint.getD [] ++ (if c.endpoint.isSome && optionText (c.network_options.getD []) ≠ [] then [','] else []) ++
      optionText (c.network_options.getD []) ++ [']'])
  else []

def composed (c : Components) : List Char :=
  string_binding_text c.string_object_uuid c.protseq c.netaddr c.endpoint (c.network_options.map optionText)

theorem composed_text : composed c =
    (if c.string_object_uuid.getD [] ≠ [] then c.string_object_uuid.getD [] ++ ['@'] else []) ++
      ((c.protseq.elim [] fun text => text ++ [':']) ++ (c.netaddr.getD [] ++ brackets c)) := by
  have hoptions : (c.network_options.map optionText).getD [] = optionText (c.network_options.getD []) := by
    cases c.network_options <;> rfl
  rw [composed, string_binding_text, brackets, hoptions, Option.isSome_map]
  simp only [List.append_assoc, List.nil_append, List.cons_append]

theorem free_brackets {term_set : List Char} (hplain : c.Plain) (hsub : term_set ⊆ special)
    (hopen : '[' ∉ term_set) (hclose : ']' ∉ term_set) (hcomma : ',' ∉ term_set) (hequals : '=' ∉ term_set) :
    Free term_set (brackets c) := by
  have hoptions : Free term_set (optionText (c.network_options.getD []) ++ [']']) :=
    free_append (free_optionText hplain.network_options hsub hequals hcomma)
      (free_cons (by decide) hclose free_nil)
  have hcomma' : Free term_set [','] := free_cons (by decide) hcomma free_nil
  have hendpoint : Free term_set (c.endpoint.getD []) := hplain.endpoint.free hsub
  rw [brackets]
  split_ifs
  · rw [List.append_assoc, List.append_assoc]
    exact free_cons (by decide) hopen (free_append hendpoint (free_append hcomma' hoptions))
  · rw [List.append_assoc, List.append_assoc]
    exact free_cons (by decide) hopen (free_append hendpoint (free_append free_nil hoptions))
  · exact free_nil

def firstTexts (c : Components) : Texts :=
  Function.update (Function.update (fun _ => none) .string_object_uuid (some (c.string_object_uuid.getD []))) .protseq
    (some (c.protseq.getD []))

theorem comes_netaddr (hplain : c.Plain) :
    Comes every (composed c) (.netaddr (c.netaddr.getD [] ++ brackets c) (firstTexts c)) := by
  rw [composed_text, Comes, firstTexts]
  have htail : Free [':'] (c.netaddr.getD [] ++ brackets c) :=
    free_append (hplain.netaddr.free (by decide)) (free_brackets hplain (by decide) (by decide) (by decide) (by decide) (by decide))
  have hprotseq : ∀ texts, Walk (.protseq ((c.protseq.elim [] fun text => text ++ [':']) ++ (c.netaddr.getD [] ++ brackets c)) texts)
      (.netaddr (c.netaddr.getD [] ++ brackets c) (Function.update texts .protseq (some (c.protseq.getD [])))) := by
    intro texts
    cases hp : c.protseq with
    | none => exact .single (protseq_step_absent htail)
    | some protseq =>
      have hfree : Free [':'] (c.protseq.getD []) := hplain.protseq.free (by decide)
      rw [hp] at hfree
      simpa using ReflTransGen.single (@protseq_step texts protseq (c.netaddr.getD [] ++ brackets c) hfree)
  by_cases huuid : c.string_object_uuid.getD [] = []
  · have hfree : Free ['@'] ((c.protseq.elim [] fun text => text ++ [':']) ++ (c.netaddr.getD [] ++ brackets c)) := by
      refine free_append ?_ (free_append (hplain.netaddr.free (by decide)) ?_)
      rotate_left
      · exact free_brackets hplain (by decide) (by decide) (by decide) (by decide) (by decide)
      cases hp : c.protseq with
      | none => exact free_nil
      | some protseq =>
        have hfree : Free ['@'] (c.protseq.getD []) := hplain.protseq.free (by decide)
        rw [hp] at hfree
        exact free_append hfree (free_cons (by decide) (by decide) free_nil)
    rw [if_neg (not_not_intro huuid), huuid, List.nil_append]
    exact .head (uuid_step_absent hfree) (hprotseq _)
  · rw [if_pos huuid, List.append_assoc, List.singleton_append]
    exact .head (uuid_step (hplain.string_object_uuid.free (by decide))) (hprotseq _)

def netaddrTexts (c : Components) : Texts := Function.update (firstTexts c) .netaddr (some (c.netaddr.getD []))

def endpointTexts (c : Components) (endpoint : Option (List Char)) : Texts :=
  Function.update (Function.update (netaddrTexts c) .network_options (some [])) .endpoint endpoint

theorem comes_brackets (hplain : c.Plain) (hbrackets : brackets c = '[' :: text) :
    Comes every (composed c) (.option ((c.netaddr.getD []).length + 1) text (endpointTexts c none)) := by
  have hcomes := comes_netaddr hplain
  rw [hbrackets] at hcomes
  have hfree : Free ['['] (c.netaddr.getD []) := hplain.netaddr.free (by decide)
  have hstep := @netaddr_step (firstTexts c) _ text hfree
  have hnone : endpointTexts c none = Function.update (netaddrTexts c) .network_options (some []) :=
    Function.update_eq_self_iff.mpr rfl
  rw [hnone]
  exact hcomes.tail hstep

theorem optionText_ne_nil {options : List (List Char × List Char)} (hne : options ≠ []) : optionText options ≠ [] := by
  fun_cases optionText options with
  | case1 => exact absurd rfl hne
  | case2 option => simp
  | case3 option option' options => simp

theorem comes_options (hplain : c.Plain) (hne : c.network_options.getD [] ≠ []) :
    ∃ count, 0 < count ∧ Comes every (composed c)
      (.option count (optionText (c.network_options.getD []) ++ [']']) (endpointTexts c c.endpoint)) := by
  have htext := optionText_ne_nil hne
  have hsome : c.network_options.isSome = true := by
    cases hoptions : c.network_options with
    | none => exact absurd (by rw [hoptions]; rfl) hne
    | some options => rfl
  have hendpoint := hplain.endpoint
  cases he : c.endpoint with
  | none =>
    have hbrackets : brackets c = '[' :: (optionText (c.network_options.getD []) ++ [']']) := by
      rw [brackets, hsome, he]
      simp
    exact ⟨_, Nat.succ_pos _, comes_brackets hplain hbrackets⟩
  | some endpoint =>
    rw [he] at hendpoint
    have hbrackets : brackets c = '[' :: (endpoint ++ ',' :: (optionText (c.network_options.getD []) ++ [']'])) := by
      rw [brackets, he]
      simp [htext]
    have hfree : Free [',', ']'] endpoint := hendpoint.free (by decide)
    have hvalue := @endpoint_value_step (endpointTexts c none) endpoint (optionText (c.network_options.getD []) ++ [']']) ','
      hfree (.inl rfl) (Function.update_self _ _ _)
    rw [endpointTexts, Function.update_idem] at hvalue
    refine ⟨endpoint.length + 1, Nat.succ_pos _, ((comes_brackets hplain hbrackets).tail ?_).tail hvalue⟩
    exact endpoint_tag_step (Nat.succ_pos _) (hendpoint.free (by decide)) (.inr ⟨_, rfl⟩)

theorem comes_end (hplain : c.Plain) (hnil : c.network_options.getD [] = []) :
    ∃ texts, Comes every (composed c)
      (.finish texts) ∧ texts .string_object_uuid = some (c.string_object_uuid.getD []) ∧
      texts .protseq = some (c.protseq.getD []) ∧ texts .netaddr = some (c.netaddr.getD []) ∧
      (texts .endpoint).getD [] = c.endpoint.getD [] ∧ (texts .network_options).getD [] = [] := by
  have htext : optionText (c.network_options.getD []) = [] := by rw [hnil]; rfl
  by_cases hsome : (c.endpoint.isSome || c.network_options.isSome) = true
  · have hbrackets : brackets c = '[' :: (c.endpoint.getD [] ++ [']']) := by
      rw [brackets, if_pos hsome, htext]
      simp
    have hfree : Free [',', ']'] (c.endpoint.getD []) := hplain.endpoint.free (by decide)
    have hvalue := @endpoint_value_step (endpointTexts c none) (c.endpoint.getD []) [] ']' hfree (.inr rfl)
      (Function.update_self _ _ _)
    refine ⟨_, (((comes_brackets hplain hbrackets).tail ?_).tail hvalue).tail end_step, rfl, rfl, rfl, rfl, rfl⟩
    exact endpoint_tag_step (Nat.succ_pos _) (hplain.endpoint.free (by decide)) (.inl rfl)
  · have hbrackets : brackets c = [] := by rw [brackets, if_neg hsome]
    have hnone : c.endpoint = none := by
      rw [Bool.or_eq_true, not_or] at hsome
      exact Option.not_isSome_iff_eq_none.mp hsome.1
    have hfree : Free ['['] (c.netaddr.getD [] ++ brackets c) := by
      rw [hbrackets, List.append_nil]
      exact hplain.netaddr.free (by decide)
    have hcomes := (comes_netaddr hplain).tail (netaddr_step_absent hfree)
    rw [hbrackets, List.append_nil] at hcomes
    exact ⟨_, hcomes, rfl, rfl, rfl, by rw [hnone]; rfl, rfl⟩

def Tame (text : List Char) : Prop := ∀ x ∈ text, x ≠ '\\' ∧ isBlank x = false

theorem Tame.not_open (h : Tame text) : ¬ EndsOpen text := by
  intro hopen
  have hsqueezed := strsqz_open hopen
  rw [strsqz_free h] at hsqueezed
  cases hsqueezed

theorem Tame.squeezed (h : Tame text) (part : Part) :
    squeezed part text = if part = .network_options then text.dropLast else text := by
  rw [dce.rpc.combind.squeezed, strsqz_free h]
  rfl

theorem Plain.tame (h : dce.rpc.combind.Plain text) : Tame text := fun x hx =>
  ⟨fun hescape => (h x hx).1 (by rw [hescape]; decide), (h x hx).2⟩

theorem tame_nil : Tame [] := fun _ hx => absurd hx List.not_mem_nil

theorem tame_append {u v : List Char} (hu : Tame u) (hv : Tame v) : Tame (u ++ v) := fun x hx =>
  (List.mem_append.mp hx).elim (hu x) (hv x)

theorem tame_cons {x : Char} {u : List Char} (hx : x ≠ '\\' ∧ isBlank x = false) (hu : Tame u) : Tame (x :: u) :=
  fun _ hy => (List.mem_cons.mp hy).elim (fun heq => heq ▸ hx) (hu _)

theorem tame_optionText {options : List (List Char × List Char)} (h : PlainOptions options) : Tame (optionText options) := by
  have hone : ∀ option, option ∈ options → Tame (option.1 ++ '=' :: option.2) := fun option hoption =>
    tame_append (h option hoption).1.tame (tame_cons (by decide) (h option hoption).2.tame)
  fun_induction optionText options with
  | case1 => exact tame_nil
  | case2 option => exact hone option List.mem_cons_self
  | case3 option option' options ih =>
    refine tame_append (hone option List.mem_cons_self) (tame_cons (by decide) ?_)
    exact ih (fun o ho => h o (List.mem_cons_of_mem _ ho)) fun o ho => hone o (List.mem_cons_of_mem _ ho)

theorem roundTrip_of_finish {texts : Texts} (hplain : c.Plain) (hcomes : Comes every (composed c) (.finish texts))
    (huuid : texts .string_object_uuid = some (c.string_object_uuid.getD []))
    (hprotseq : texts .protseq = some (c.protseq.getD [])) (hnetaddr : texts .netaddr = some (c.netaddr.getD []))
    (hendpoint : (texts .endpoint).getD [] = c.endpoint.getD [])
    (hoptions : Tame ((texts .network_options).getD []) ∧
      ((texts .network_options).getD []).dropLast = optionText (c.network_options.getD [])) : c.RoundTrip := by
  have htame : ∀ part, Tame ((texts part).getD []) := by
    intro part
    cases part with
    | string_object_uuid => simpa [huuid] using hplain.string_object_uuid.tame
    | protseq => simpa [hprotseq] using hplain.protseq.tame
    | netaddr => simpa [hnetaddr] using hplain.netaddr.tame
    | endpoint => simpa [hendpoint] using hplain.endpoint.tame
    | network_options => exact hoptions.1
  have hstrays : ¬ (Place.finish texts).Strays every := by
    rintro ⟨part, text, -, htext, hopen⟩
    have hpart := htame part
    rw [htext] at hpart
    exact hpart.not_open hopen
  have hescape : '\\' ∉ c.endpoint.getD [] := fun hmem => (hplain.endpoint.tame _ hmem).1 rfl
  intro mem hgrants
  obtain ⟨o, hparse, hresults⟩ := parse_of_finish hgrants hcomes hstrays
  refine ⟨_, o, composed_fits .., hparse, ?_, ?_, ?_, ?_, ?_⟩
  · rw [hresults, (htame _).squeezed, if_neg (by decide), huuid]
    rfl
  · rw [hresults, (htame _).squeezed, if_neg (by decide), hprotseq]
    rfl
  · rw [hresults, (htame _).squeezed, if_neg (by decide), hnetaddr]
    rfl
  · rw [hresults, (htame _).squeezed, if_neg (by decide), hendpoint, unescape_plain hescape]
  · rw [hresults, (htame _).squeezed, if_pos rfl, hoptions.2]

theorem roundTrip_iff (hplain : c.Plain) :
    c.RoundTrip ↔ ∀ option ∈ c.network_options.getD [], ¬ option.1 <+: endpointTag := by
  by_cases hnil : c.network_options.getD [] = []
  · refine ⟨fun _ option hoption => ?_, fun _ => ?_⟩
    · rw [hnil] at hoption
      exact absurd hoption List.not_mem_nil
    · obtain ⟨texts, hcomes, huuid, hprotseq, hnetaddr, hendpoint, hoptions⟩ := comes_end hplain hnil
      refine roundTrip_of_finish hplain hcomes huuid hprotseq hnetaddr hendpoint ?_
      rw [hoptions, hnil]
      exact ⟨tame_nil, rfl⟩
  obtain ⟨count, hcount, hcomes⟩ := comes_options hplain hnil
  have hacc : endpointTexts c c.endpoint .network_options = some [] := rfl
  constructor
  · intro hround option hoption hprefix
    obtain ⟨buffer, o, hcompose, hparse, -, -, -, -, hresult⟩ := hround ⟨fun _ => true, 0, 0⟩ fun _ => rfl
    obtain rfl := Option.some.inj (Prod.mk.inj (Except.ok.inj ((composed_fits ..).symm.trans hcompose))).2
    obtain ⟨texts, hfinish, hresults⟩ := finish_of_parse hparse
    have hunique : ∀ p, Comes every (composed c) p → (∀ q, ¬ p.Step every q) → p = .finish texts := fun p hp hend =>
      ends_unique (step_rightUnique every) hp hfinish hend (finish_no_step every texts)
    rcases any_options_walk hcount hnil hplain.network_options hacc with
      ⟨p, hwalk, hrejects⟩ | ⟨texts', w, hwalk, hw, -, hshort⟩
    · exact hrejects.2.2 texts (hunique p (hcomes.trans hwalk) (rejects_no_step every hrejects))
    · obtain rfl := Place.finish.inj (hunique _ (hcomes.trans hwalk) (finish_no_step every texts'))
      have hlen := length_squeezed_options ((texts' .network_options).getD [])
      have hpos : 0 < (optionText (c.network_options.getD [])).length := List.length_pos_iff.mpr (optionText_ne_nil hnil)
      have hless := hshort ⟨option, hoption, hprefix⟩
      rw [← hresults, hresult, hw, Option.getD_some, List.nil_append] at hlen
      omega
  · intro hother
    have hwalk := options_walk hcount hnil hplain.network_options hother hacc
    refine roundTrip_of_finish hplain (hcomes.trans hwalk) rfl rfl rfl ?_ ⟨?_, ?_⟩
    · cases c.endpoint <;> rfl
    · rw [Function.update_self, Option.getD_some, List.nil_append]
      exact tame_append (tame_optionText hplain.network_options) (tame_cons (by decide) tame_nil)
    · rw [Function.update_self, Option.getD_some, List.nil_append, List.dropLast_concat]

end Composed

/-- What `rpc_string_binding_parse` does: it is safe just for the strings whose parse comes to no place where an escape ends the
string it searches or squeezes, and it gives back what was composed of texts without escapes just when no tag of the options is
taken for that of the endpoint. -/
theorem string_binding_parse_exact (wanted : Part → Bool) (string_binding : List Char) (c : Components) :
    (ParseSafe wanted string_binding ↔ ∀ p, Comes wanted string_binding p → ¬ p.Strays wanted) ∧
      (c.WellEscaped → ¬ c.HasEscape →
        (c.RoundTrip ↔ ∀ option ∈ c.network_options.getD [], ¬ option.1 <+: endpointTag)) := by
  refine ⟨?_, fun hwell hno => roundTrip_iff (c.plain hwell hno)⟩
  rw [parseSafe_iff, Strays, not_exists]
  exact forall_congr' fun p => not_and

/-- Options and an endpoint without escapes come back. -/
theorem string_binding_parse_exact_plain :
    Components.RoundTrip ⟨some ['u'], some ['p'], some ['n'], some ['e'], some [(['t'], ['v'])]⟩ := by
  refine ((string_binding_parse_exact every [] _).2 ?_ ?_).mpr (by decide)
  rotate_left
  · rw [Components.HasEscape]
    decide
  have hone : ∀ c, c ∉ special → isBlank c = false → Escaped [c] := fun c hspecial hblank => .plain hspecial hblank .nil
  simp only [Components.WellEscaped, Components.texts, Option.getD_some, List.cons_append, List.nil_append, List.flatMap_cons,
    List.flatMap_nil, List.forall_mem_cons]
  refine ⟨hone _ ?_ rfl, hone _ ?_ rfl, hone _ ?_ rfl, hone _ ?_ rfl, hone _ ?_ rfl, hone _ ?_ rfl, by simp⟩ <;> decide

/-- An escaped colon at the end of a string is searched over, and an escaped comma in an endpoint as well as a tag that is a
beginning of `endpoint` make a composed string invalid. -/
theorem escapes_miscounted :
    ¬ (∀ wanted string_binding, ParseSafe wanted string_binding) ∧ ¬ (∀ c : Components, c.WellEscaped → c.RoundTrip) ∧
      (rpc_string_binding_parse every (composed ⟨none, some ['p'], some ['n'], some ['e'], some [(['e'], ['v'])]⟩)
        ⟨fun _ => true, 0, 0⟩).toOption.map Prod.fst = some .rpc_s_invalid_string_binding := by
  refine ⟨fun hsafe => ?_, fun hround => ?_, by decide +kernel⟩
  · obtain ⟨status, o, hparse, -⟩ := hsafe every ['a', '\\', ':'] ⟨fun _ => true, 0, 0⟩
    have hfault : (rpc_string_binding_parse every ['a', '\\', ':'] ⟨fun _ => true, 0, 0⟩).isOk = false := by decide +kernel
    rw [hparse] at hfault
    cases hfault
  · have hwell : Components.WellEscaped ⟨none, some ['p'], some ['n'], some ['e', '\\', ',', 'f'], none⟩ := by
      simp only [Components.WellEscaped, Components.texts, Option.getD_some, Option.getD_none, List.cons_append, List.nil_append,
        List.flatMap_nil, List.forall_mem_cons]
      exact ⟨.nil, .plain (by decide) rfl .nil, .plain (by decide) rfl .nil,
        .plain (by decide) rfl (.escape rfl (.plain (by decide) rfl .nil)), by simp⟩
    obtain ⟨buffer, o, hcompose, hparse, -⟩ := hround _ hwell ⟨fun _ => true, 0, 0⟩ fun _ => rfl
    obtain rfl := Option.some.inj (Prod.mk.inj (Except.ok.inj ((composed_fits ..).symm.trans hcompose))).2
    have hinvalid : (rpc_string_binding_parse every
        (composed ⟨none, some ['p'], some ['n'], some ['e', '\\', ',', 'f'], none⟩) ⟨fun _ => true, 0, 0⟩).toOption.map Prod.fst =
          some .rpc_s_invalid_string_binding := by decide +kernel
    rw [composed] at hinvalid
    rw [hparse] at hinvalid
    cases hinvalid

end dce.rpc.combind
