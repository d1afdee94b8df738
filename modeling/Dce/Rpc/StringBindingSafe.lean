import Dce.Rpc.StringBindingWalk

open lib Relation

namespace dce.rpc.combind

def Outputs.texts (o : Outputs) : Texts := fun part => (o.result part).map Buffer.text

/-- The buffers in use are the results, next to those that were in use before, and every result fits into its buffer. -/
structure Outputs.Sound (mem : MemStats) (o : Outputs) : Prop where
  grants : o.mem.grants = mem.grants
  inuse : o.mem.inuse = mem.inuse + Part.all.countP fun part => (o.result part).isSome
  fits : ∀ part buffer, o.result part = some buffer → buffer.text.length < buffer.size

theorem texts_update {o o' : Outputs} {part : Part} {buffer : Buffer}
    (h : o'.result = Function.update o.result part (some buffer)) :
    o'.texts = Function.update o.texts part (some buffer.text) := by
  funext other
  rw [Outputs.texts, h]
  by_cases hother : other = part
  · subst hother
    simp
  · simp [Function.update_of_ne hother, Outputs.texts]

theorem count_update_some {result : Part → Option Buffer} {part : Part} (hnone : result part = none) (buffer : Buffer) :
    Part.all.countP (fun other => (Function.update result part (some buffer) other).isSome) =
      Part.all.countP (fun other => (result other).isSome) + 1 := by
  cases part <;> simp [Part.all, List.countP_cons, Function.update_apply, hnone] <;> omega

theorem count_update_same {result : Part → Option Buffer} {part : Part} {buffer : Buffer}
    (hsome : result part = some buffer) (buffer' : Buffer) :
    Part.all.countP (fun other => (Function.update result part (some buffer') other).isSome) =
      Part.all.countP (fun other => (result other).isSome) := by
  refine List.countP_congr fun other _ => ?_
  by_cases hother : other = part
  · subst hother
    simp [hsome]
  · rw [Function.update_of_ne hother]

section Stages

variable (wanted : Part → Bool) (mem : MemStats)

def stops (p : Place) : Stop → Prop
  | .fault fault => fault = .past_nul ∧ p.Strays wanted
  | .cleanup status o => status = .rpc_s_invalid_string_binding ∧ p.Rejects wanted ∧ o.Sound mem

def starved : Stop → Prop
  | .fault _ => False
  | .cleanup status o => status = .rpc_s_no_memory ∧ (∃ call, mem.grants call = false) ∧ o.Sound mem

abbrev Reads {α : Type} (p : Place) (fits : α → Place → Prop) (x : Except Stop α) : Prop :=
  Follows (Place.Step wanted) (stops wanted mem) (starved mem) p fits x

variable {wanted mem} {o : Outputs} {part : Part} {p : Place} {ptr : List Char} {size len : ℕ}

theorem alloc_reads (hsound : o.Sound mem) (hnone : o.result part = none) (hsize : 0 < size) :
    Reads wanted mem p (fun o' q => q = p ∧ o'.Sound mem ∧ o'.result = Function.update o.result part (some ⟨size, []⟩))
      (RPC_MEM_ALLOC part size o) := by
  rw [RPC_MEM_ALLOC]
  by_cases hgrants : o.mem.grants o.mem.calls
  · rw [if_pos hgrants]
    refine .here ⟨rfl, ⟨hsound.grants, ?_, ?_⟩, rfl⟩
    · rw [count_update_some hnone, hsound.inuse, Nat.add_assoc]
    · intro other buffer hbuffer
      by_cases hother : other = part
      · subst hother
        obtain rfl : Buffer.mk size [] = buffer := by simpa using hbuffer
        exact hsize
      · exact hsound.fits other buffer (by simpa [Function.update_of_ne hother] using hbuffer)
  · rw [if_neg hgrants, ← hnone, Function.update_eq_self]
    refine .own ⟨rfl, ⟨o.mem.calls, ?_⟩, hsound.grants, hsound.inuse, hsound.fits⟩
    rw [← hsound.grants]
    simpa using hgrants

theorem write_reads {buffer : Buffer} {text : List Char} (hsound : o.Sound mem) (hbuffer : o.result part = some buffer)
    (htext : text.length ≤ len) (hlen : len < buffer.size) :
    Reads wanted mem p (fun o' q => q = p ∧ o'.Sound mem ∧
      o'.result = Function.update o.result part (some { buffer with text := text })) (write part text len o) := by
  rw [write, hbuffer]
  dsimp only
  rw [if_pos hlen]
  refine .here ⟨rfl, ⟨hsound.grants, ?_, ?_⟩, rfl⟩
  · rw [count_update_same hbuffer, hsound.inuse]
  · intro other buffer' hbuffer'
    by_cases hother : other = part
    · subst hother
      obtain rfl : { buffer with text := text } = buffer' := by simpa using hbuffer'
      exact Nat.lt_of_le_of_lt htext hlen
    · exact hsound.fits other buffer' (by simpa [Function.update_of_ne hother] using hbuffer')

theorem alloc_write_reads {text : List Char} (hsound : o.Sound mem) (hnone : o.result part = none)
    (htext : text.length ≤ len) (hlen : len < size) :
    Reads wanted mem p (fun o' q => q = p ∧ o'.Sound mem ∧ o'.result = Function.update o.result part (some ⟨size, text⟩))
      (RPC_MEM_ALLOC part size o >>= write part text len) := by
  refine (alloc_reads hsound hnone (Nat.zero_lt_of_lt hlen)).bind fun o' q hreads => ?_
  obtain ⟨rfl, hsound', hresult⟩ := hreads
  have hbuffer : o'.result part = some ⟨size, []⟩ := by rw [hresult, Function.update_self]
  refine (write_reads hsound' hbuffer htext hlen).weaken fun o'' q hreads => ?_
  obtain ⟨rfl, hsound'', hresult'⟩ := hreads
  exact ⟨rfl, hsound'', by rw [hresult', hresult, Function.update_idem]⟩

theorem copy_out_reads (hsound : o.Sound mem) (hnone : o.result part = none) (hlen : len < size) :
    Reads wanted mem p (fun o' q => q = p ∧ o'.Sound mem ∧ o'.texts = keep wanted part (ptr.take len) o.texts ∧
      ∀ other, other ≠ part → o'.result other = o.result other) (copy_out wanted part size len ptr o) := by
  rw [copy_out, keep]
  by_cases hwanted : wanted part = true
  · rw [if_pos hwanted, if_pos hwanted]
    refine (alloc_write_reads hsound hnone (List.length_take_le len ptr) hlen).weaken fun o' q hreads => ?_
    obtain ⟨rfl, hsound', hresult⟩ := hreads
    refine ⟨rfl, hsound', texts_update hresult, fun other hother => ?_⟩
    rw [hresult, Function.update_of_ne hother]
  · rw [if_neg hwanted, if_neg hwanted]
    exact .here ⟨rfl, hsound, rfl, fun other _ => rfl⟩

theorem strcspn_reads {α : Type} {fits : α → Place → Prop} {term_set : List Char} {f : ℕ → Except Stop α}
    (hstrays : p.Strays wanted ↔ Overruns term_set false ptr)
    (h : ¬ p.Strays wanted → Reads wanted mem p fits (f (found ptr term_set))) :
    Reads wanted mem p fits (strcspn ptr term_set >>= f) := by
  by_cases hoverruns : Overruns term_set false ptr
  · rw [strcspn_overruns hoverruns]
    exact .stopped ⟨rfl, hstrays.mpr hoverruns⟩
  · rw [strcspn_found hoverruns]
    exact h fun hp => hoverruns (hstrays.mp hp)

theorem parse_string_object_uuid_reads (hsound : o.Sound mem) (hnone : o.result .string_object_uuid = none) :
    Reads wanted mem (.string_object_uuid ptr o.texts)
      (fun r q => q = .protseq r.1 r.2.texts ∧ r.2.Sound mem ∧
        ∀ other, other ≠ .string_object_uuid → r.2.result other = o.result other)
      (parse_string_object_uuid wanted ptr o) := by
  refine strcspn_reads Iff.rfl fun hstrays => ?_
  refine (copy_out_reads hsound hnone (by omega)).bind fun o' q hreads => ?_
  obtain ⟨rfl, hsound', htexts, hothers⟩ := hreads
  refine .value (.single ⟨hstrays, ?_⟩) ⟨rfl, hsound', hothers⟩
  rw [htexts]
  rfl

theorem parse_protseq_reads (hsound : o.Sound mem) (hnone : o.result .protseq = none) :
    Reads wanted mem (.protseq ptr o.texts)
      (fun r q => q = .netaddr r.1 r.2.texts ∧ r.2.Sound mem ∧ ∀ other, other ≠ .protseq → r.2.result other = o.result other)
      (parse_protseq wanted ptr o) := by
  refine strcspn_reads Iff.rfl fun hstrays => ?_
  refine (copy_out_reads hsound hnone (by omega)).bind fun o' q hreads => ?_
  obtain ⟨rfl, hsound', htexts, hothers⟩ := hreads
  refine .value (.single ⟨hstrays, ?_⟩) ⟨rfl, hsound', hothers⟩
  rw [htexts]
  rfl

/-- The buffer of the options has room for all that is left of the string. -/
def HasRoom (wanted : Part → Bool) (o : Outputs) (ptr : List Char) : Prop :=
  wanted .network_options = true →
    ∃ buffer, o.result .network_options = some buffer ∧ buffer.text.length + ptr.length < buffer.size

theorem HasRoom.of_le {ptr' : List Char} (h : HasRoom wanted o ptr) (hlen : ptr'.length ≤ ptr.length) :
    HasRoom wanted o ptr' := fun hwanted =>
  let ⟨buffer, hbuffer, hroom⟩ := h hwanted
  ⟨buffer, hbuffer, by omega⟩

theorem option_tag_reads {count : ℕ} {texts : Texts} (hcount : 0 < count) (hptr : ptr ≠ []) :
    Reads wanted mem (.option count ptr texts) (fun r q => q = .value r.1 r.2 texts ∧ r.2.length ≤ ptr.length)
      (option_tag ptr) := by
  refine strcspn_reads ⟨fun h => h.2.2, fun h => ⟨hcount, hptr, h⟩⟩ fun hstrays => ?_
  have hstep : Place.Step wanted (.option count ptr texts) (behindTag ptr texts) :=
    ⟨hstrays, by rw [Place.next, if_pos ⟨hcount, hptr⟩]⟩
  have hblanks : (ptr.dropWhile isBlank).length ≤ ptr.length := (List.dropWhile_suffix isBlank).length_le
  rw [behindTag] at hstep
  dsimp only at hstep ⊢
  split_ifs at hstep ⊢ with htag hendpoint
  · exact .value (.single hstep) ⟨rfl, Nat.le_refl _⟩
  · refine .value (.single hstep) ⟨rfl, ?_⟩
    rw [List.length_drop]
    omega
  · exact .value (.single hstep) ⟨rfl, hblanks⟩

theorem parse_option_reads {count : ℕ} (hcount : 0 < count) (hptr : ptr ≠ []) (hsound : o.Sound mem)
    (hroom : HasRoom wanted o ptr) :
    Reads wanted mem (.option count ptr o.texts)
      (fun r q => q = .option r.1 r.2.1 r.2.2.texts ∧ r.2.2.Sound mem ∧ HasRoom wanted r.2.2 r.2.1 ∧
        (0 < r.1 → r.2.1.length < ptr.length)) (parse_option wanted ptr o) := by
  refine (option_tag_reads hcount hptr).bind ?_
  rintro ⟨get_endpoint, ptr'⟩ q ⟨rfl, hle⟩
  change ptr'.length ≤ ptr.length at hle
  refine strcspn_reads Iff.rfl fun hstrays => ?_
  have hfound := found_le ptr' [',', ']']
  have hnext : Place.next wanted (.value get_endpoint ptr' o.texts) = behindValue wanted get_endpoint ptr' o.texts := rfl
  have hskip : HasRoom wanted o (ptr'.drop (found ptr' [',', ']'])) :=
    hroom.of_le (by rw [List.length_drop]; omega)
  have hshorter : 0 < found ptr' [',', ']'] → (ptr'.drop (found ptr' [',', ']'])).length < ptr.length := by
    intro hpos
    rw [List.length_drop]
    omega
  have hrejects : ∀ o', o'.Sound mem → behindValue wanted get_endpoint ptr' o.texts = none →
      stops wanted mem (.value get_endpoint ptr' o.texts) (.cleanup .rpc_s_invalid_string_binding o') :=
    fun o' hsound' hnone => ⟨rfl, ⟨hstrays, hnext.trans hnone, fun _ heq => Place.noConfusion heq⟩, hsound'⟩
  rw [behindValue] at hnext hrejects
  dsimp only at hnext hrejects ⊢
  cases get_endpoint with
  | true =>
    rw [if_pos rfl] at hnext hrejects ⊢
    by_cases hendpoint : wanted .endpoint = true
    · rw [if_pos hendpoint] at hnext hrejects ⊢
      by_cases hbad : found ptr' [',', ']'] = 0 ∨ (o.result .endpoint).isSome
      · have hbad' : found ptr' [',', ']'] = 0 ∨ (o.texts .endpoint).isSome := by simpa [Outputs.texts] using hbad
        rw [if_pos hbad]
        exact .stopped (hrejects o hsound (if_pos hbad'))
      · have hbad' : ¬(found ptr' [',', ']'] = 0 ∨ (o.texts .endpoint).isSome) := by simpa [Outputs.texts] using hbad
        rw [if_neg hbad]
        rw [if_neg hbad'] at hnext
        obtain ⟨hpos, hnone⟩ := not_or.mp hbad
        have hlen : ((ptr'.take (found ptr' [',', ']'] - 1)).filter (· ≠ '\\')).length < found ptr' [',', ']'] :=
          Nat.lt_of_le_of_lt (List.length_filter_le _ _) (by rw [List.length_take]; omega)
        rw [← bind_assoc]
        refine (alloc_write_reads hsound (by simpa using hnone) (Nat.le_refl _) hlen).bind ?_
        rintro o' q ⟨rfl, hsound', hresult⟩
        refine .value (.single ⟨hstrays, ?_⟩) ⟨rfl, hsound', fun hwanted => ?_, hshorter⟩
        · rw [hnext, texts_update hresult]
        · obtain ⟨buffer, hbuffer, hfits⟩ := hskip hwanted
          exact ⟨buffer, by rw [hresult, Function.update_of_ne (by decide), hbuffer], hfits⟩
    · rw [if_neg hendpoint] at hnext ⊢
      exact .value (.single ⟨hstrays, hnext⟩) ⟨rfl, hsound, hskip, hshorter⟩
  | false =>
    rw [if_neg (by decide)] at hnext hrejects ⊢
    by_cases hopen : found ptr' [',', ']'] = 0 ∧ ptr' ≠ []
    · rw [if_pos hopen]
      exact .stopped (hrejects o hsound (if_pos hopen))
    · rw [if_neg hopen] at hnext hrejects ⊢
      by_cases hoptions : wanted .network_options = true
      · rw [if_pos hoptions] at hnext hrejects ⊢
        by_cases hnot : found ptr' [',', ']'] = 0
        · rw [if_pos hnot]
          exact .stopped (hrejects o hsound (if_pos hnot))
        · rw [if_neg hnot] at hnext ⊢
          obtain ⟨buffer, hbuffer, hfits⟩ := hroom hoptions
          have htext : o.text .network_options = buffer.text := by simp [Outputs.text, hbuffer]
          have htexts : (o.texts .network_options).getD [] = buffer.text := by simp [Outputs.texts, hbuffer]
          have hlen : buffer.text.length + found ptr' [',', ']'] < buffer.size := by omega
          have hwritten : (buffer.text ++ ptr'.take (found ptr' [',', ']'])).length ≤
              buffer.text.length + found ptr' [',', ']'] := by
            rw [List.length_append, List.length_take]
            omega
          rw [htext]
          refine (write_reads hsound hbuffer hwritten hlen).bind ?_
          rintro o' q ⟨rfl, hsound', hresult⟩
          refine .value (.single ⟨hstrays, ?_⟩) ⟨rfl, hsound', fun _ => ⟨_, by rw [hresult, Function.update_self], ?_⟩,
            hshorter⟩
          · rw [hnext, texts_update hresult, htexts]
          · rw [List.length_append, List.length_take, List.length_drop]
            dsimp only
            omega
      · rw [if_neg hoptions] at hnext ⊢
        exact .value (.single ⟨hstrays, hnext⟩) ⟨rfl, hsound, hskip, hshorter⟩

theorem parse_options_reads (rounds : ℕ) {count : ℕ} (hrounds : count = 0 ∨ ptr.length < rounds) (hpos : 0 < rounds)
    (hsound : o.Sound mem) (hroom : HasRoom wanted o ptr) :
    Reads wanted mem (.option count ptr o.texts) (fun o' q => q = .finish o'.texts ∧ o'.Sound mem)
      (parse_options wanted rounds count ptr o) := by
  induction rounds generalizing count ptr o with
  | zero => exact absurd hpos (Nat.lt_irrefl 0)
  | succ rounds ih =>
    rw [parse_options]
    by_cases hloop : 0 < count ∧ ptr ≠ []
    · obtain ⟨hcount, hptr⟩ := hloop
      rw [if_pos ⟨hcount, hptr⟩]
      have hsome : 0 < ptr.length := List.length_pos_iff.mpr hptr
      refine (parse_option_reads hcount hptr hsound hroom).bind ?_
      rintro ⟨count', ptr', o'⟩ q ⟨rfl, hsound', hroom', hshorter⟩
      have hround : count' = 0 ∨ ptr'.length < rounds := by
        dsimp only at hshorter
        omega
      exact ih hround (by omega) hsound' hroom'
    · rw [if_neg hloop]
      refine .value (.single ⟨fun hstrays => hloop ⟨hstrays.1, hstrays.2.1⟩, ?_⟩) ⟨rfl, hsound⟩
      rw [Place.next, if_neg hloop]

theorem parse_netaddr_reads (hsound : o.Sound mem) (hnetaddr : o.result .netaddr = none)
    (hoptions : o.result .network_options = none) :
    Reads wanted mem (.netaddr ptr o.texts) (fun o' q => q = .finish o'.texts ∧ o'.Sound mem)
      (parse_netaddr wanted ptr o) := by
  refine strcspn_reads Iff.rfl fun hstrays => ?_
  by_cases hcount : found ptr ['['] = 0
  · rw [if_pos hcount]
    refine (copy_out_reads hsound hnetaddr (Nat.lt_succ_self ptr.length)).walk_on ?_
    rintro o' q ⟨rfl, hsound', htexts, -⟩
    refine ⟨_, .single ⟨hstrays, ?_⟩, rfl, hsound'⟩
    rw [Place.next, if_pos hcount, htexts, List.take_length]
  · rw [if_neg hcount]
    refine (copy_out_reads hsound hnetaddr (by omega)).bind ?_
    rintro o' q ⟨rfl, hsound', htexts, hothers⟩
    have hnone : o'.result .network_options = none := by rw [hothers _ (by decide), hoptions]
    have hstep : Place.Step wanted (.netaddr ptr o.texts) (.option (found ptr ['[']) (ptr.drop (found ptr ['[']))
        (keep wanted .network_options [] o'.texts)) := by
      refine ⟨hstrays, ?_⟩
      rw [Place.next, if_neg hcount, htexts]
    rw [keep] at hstep
    dsimp only
    by_cases hwanted : wanted .network_options = true
    · rw [if_pos hwanted] at hstep ⊢
      rw [← bind_assoc]
      refine (alloc_write_reads hsound' hnone (Nat.le_of_eq List.length_nil) (Nat.succ_pos _)).bind ?_
      rintro o'' q ⟨rfl, hsound'', hresult⟩
      rw [← texts_update hresult] at hstep
      refine .after (.single hstep) (parse_options_reads _ (.inr (Nat.lt_succ_self _)) (Nat.succ_pos _) hsound'' ?_)
      exact fun _ => ⟨_, by rw [hresult, Function.update_self], by simp⟩
    · rw [if_neg hwanted] at hstep ⊢
      refine .after (.single hstep) (parse_options_reads _ (.inr (Nat.lt_succ_self _)) (Nat.succ_pos _) hsound' ?_)
      exact fun hwanted' => absurd hwanted' hwanted

def squeezed (part : Part) (text : List Char) : List Char :=
  let text := (rpc__strsqz text).toOption.getD []
  if part = .network_options then text.dropLast else text

theorem finish_reads {texts : Texts} (hsound : o.Sound mem) (htexts : o.texts part = texts part) :
    Reads wanted mem (.finish texts)
      (fun o' q => q = .finish texts ∧ o'.Sound mem ∧
        (wanted part = true → o'.text part = squeezed part ((texts part).getD []) ∧ ¬ EndsOpen ((texts part).getD [])) ∧
        ∀ other, other ≠ part → o'.result other = o.result other) (finish wanted part o) := by
  rw [finish]
  by_cases hwanted : wanted part = true
  · rw [if_pos hwanted]
    cases hresult : o.result part with
    | none =>
      have hempty : (texts part).getD [] = [] := by rw [← htexts, Outputs.texts, hresult]; rfl
      refine (alloc_write_reads hsound hresult (Nat.le_refl 0) Nat.zero_lt_one).weaken ?_
      rintro o' q ⟨rfl, hsound', hresult'⟩
      refine ⟨rfl, hsound', fun _ => ⟨?_, ?_⟩, fun other hother => by rw [hresult', Function.update_of_ne hother]⟩
      · rw [Outputs.text, hresult', Function.update_self, hempty, squeezed]
        cases part <;> rfl
      · rw [hempty]
        intro hopen
        cases hopen
    | some buffer =>
      have htext : texts part = some buffer.text := by rw [← htexts, Outputs.texts, hresult]; rfl
      have htext' : (texts part).getD [] = buffer.text := by rw [htext]; rfl
      rw [htext']
      by_cases hopen : EndsOpen buffer.text
      · dsimp only
        rw [strsqz_open hopen]
        exact .stopped ⟨rfl, part, buffer.text, hwanted, htext, hopen⟩
      · obtain ⟨text, hsqueezed, hlen⟩ := strsqz_ok hopen
        have hfits := hsound.fits part buffer hresult
        dsimp only
        rw [hsqueezed]
        have hclipped : (if part = .network_options then text.dropLast else text).length ≤ text.length := by
          split_ifs
          · rw [List.length_dropLast]
            exact Nat.sub_le _ _
          · exact Nat.le_refl _
        refine (write_reads hsound hresult hclipped (Nat.lt_of_le_of_lt hlen hfits)).weaken ?_
        rintro o' q ⟨rfl, hsound', hresult'⟩
        refine ⟨rfl, hsound', fun _ => ⟨?_, hopen⟩, fun other hother => by rw [hresult', Function.update_of_ne hother]⟩
        rw [Outputs.text, hresult', Function.update_self, squeezed, hsqueezed]
        rfl
  · rw [if_neg hwanted]
    exact .here ⟨rfl, hsound, fun hwanted' => absurd hwanted' hwanted, fun _ _ => rfl⟩

theorem finish_all_reads {texts : Texts} (parts : List Part) (hnodup : parts.Nodup) (hsound : o.Sound mem)
    (htexts : ∀ part ∈ parts, o.texts part = texts part) :
    Reads wanted mem (.finish texts)
      (fun o' q => q = .finish texts ∧ o'.Sound mem ∧
        (∀ part ∈ parts, wanted part = true →
          o'.text part = squeezed part ((texts part).getD []) ∧ ¬ EndsOpen ((texts part).getD [])) ∧
        ∀ other, other ∉ parts → o'.result other = o.result other)
      (parts.foldlM (fun o part => finish wanted part o) o) := by
  induction parts generalizing o with
  | nil => exact .here ⟨rfl, hsound, fun part hpart => absurd hpart List.not_mem_nil, fun _ _ => rfl⟩
  | cons part parts ih =>
    obtain ⟨hfresh, hnodup⟩ := List.nodup_cons.mp hnodup
    rw [List.foldlM_cons]
    refine (finish_reads hsound (htexts part List.mem_cons_self)).bind ?_
    rintro o' q ⟨rfl, hsound', hdone, hothers⟩
    have hsame : ∀ other ∈ parts, o'.texts other = texts other := by
      intro other hother
      have hne : other ≠ part := fun heq => hfresh (heq ▸ hother)
      rw [Outputs.texts, hothers other hne]
      exact htexts other (List.mem_cons_of_mem part hother)
    refine (ih hnodup hsound' hsame).weaken ?_
    rintro o'' q ⟨rfl, hsound'', hrest, hothers'⟩
    refine ⟨rfl, hsound'', fun other hother hwanted => ?_, fun other hother => ?_⟩
    · rcases List.mem_cons.mp hother with rfl | hmem
      · rw [Outputs.text, hothers' _ hfresh]
        exact hdone hwanted
      · exact hrest other hmem hwanted
    · rw [List.mem_cons, not_or] at hother
      rw [hothers' other hother.2, hothers other hother.1]

theorem mem_all (part : Part) : part ∈ Part.all := by cases part <;> decide

def Gives (wanted : Part → Bool) (mem : MemStats) (o : Outputs) (p : Place) : Prop :=
  ∃ texts, p = .finish texts ∧ ¬ p.Strays wanted ∧ o.Sound mem ∧
    ∀ part, wanted part = true → o.text part = squeezed part ((texts part).getD [])

theorem parse_reads (wanted : Part → Bool) (mem : MemStats) (string_binding : List Char) :
    Reads wanted mem (.string_object_uuid string_binding fun _ => none) (Gives wanted mem)
      (parse wanted string_binding ⟨mem, fun _ => none⟩) := by
  have hsound : Outputs.Sound mem ⟨mem, fun _ => none⟩ :=
    ⟨rfl, rfl, fun part buffer hbuffer => absurd hbuffer.symm (Option.some_ne_none buffer)⟩
  refine (parse_string_object_uuid_reads hsound rfl).bind ?_
  rintro ⟨ptr, o⟩ q ⟨rfl, hsound, hothers⟩
  refine (parse_protseq_reads hsound (hothers _ (by decide))).bind ?_
  rintro ⟨ptr', o'⟩ q ⟨rfl, hsound', hothers'⟩
  have hnetaddr : o'.result .netaddr = none := by rw [hothers' _ (by decide), hothers _ (by decide)]
  have hoptions : o'.result .network_options = none := by rw [hothers' _ (by decide), hothers _ (by decide)]
  refine (parse_netaddr_reads hsound' hnetaddr hoptions).bind ?_
  rintro o'' q ⟨rfl, hsound''⟩
  refine (finish_all_reads Part.all (by decide) hsound'' fun _ _ => rfl).weaken ?_
  rintro o''' q ⟨rfl, hsound''', hdone, -⟩
  refine ⟨o''.texts, rfl, ?_, hsound''', fun part hwanted => (hdone part (mem_all part) hwanted).1⟩
  rintro ⟨part, text, hwanted, htext, hopen⟩
  refine (hdone part (mem_all part) hwanted).2 ?_
  rwa [htext]

end Stages

section Safe

variable (wanted : Part → Bool)

theorem free_all (o : Outputs) (parts : List Part) (hnodup : parts.Nodup) :
    (parts.foldl rpc_string_free o).mem.inuse = o.mem.inuse - parts.countP (fun part => (o.result part).isSome) ∧
      ∀ part, (parts.foldl rpc_string_free o).result part = if part ∈ parts then none else o.result part := by
  induction parts generalizing o with
  | nil => exact ⟨rfl, fun _ => rfl⟩
  | cons part parts ih =>
    obtain ⟨hfresh, hnodup⟩ := List.nodup_cons.mp hnodup
    obtain ⟨hinuse, hresult⟩ := ih (rpc_string_free o part) hnodup
    have hothers : ∀ other, other ≠ part → (rpc_string_free o part).result other = o.result other := by
      intro other hother
      rw [rpc_string_free]
      split_ifs
      · exact Function.update_of_ne hother _ _
      · rfl
    have hfreed : (rpc_string_free o part).result part = none := by
      rw [rpc_string_free]
      split_ifs with hsome
      · exact Function.update_self _ _ _
      · simpa using hsome
    have hcount : parts.countP (fun other => ((rpc_string_free o part).result other).isSome) =
        parts.countP (fun other => (o.result other).isSome) := by
      refine List.countP_congr fun other hother => ?_
      rw [hothers other fun heq => hfresh (heq ▸ hother)]
    refine ⟨?_, fun other => ?_⟩
    · rw [List.foldl_cons, hinuse, hcount, List.countP_cons, rpc_string_free]
      split_ifs with hsome
      · dsimp only
        omega
      · rfl
    · rw [List.foldl_cons, hresult]
      by_cases hother : other = part
      · subst hother
        rw [if_neg hfresh, if_pos List.mem_cons_self, hfreed]
      · rw [hothers other hother]
        simp [hother]

/-- Whatever memory there is, a parse returns without having left the memory of its strings and buffers, and when it fails
there are no results and no buffers of them. -/
def ParseSafe (string_binding : List Char) : Prop :=
  ∀ mem, ∃ status o, rpc_string_binding_parse wanted string_binding mem = .ok (status, o) ∧
    (status ≠ .rpc_s_ok → (∀ part, o.result part = none) ∧ o.mem.inuse = mem.inuse)

theorem cleanup_frees {mem : MemStats} {o : Outputs} (hsound : o.Sound mem) :
    (∀ part, (Part.all.foldl rpc_string_free o).result part = none) ∧
      (Part.all.foldl rpc_string_free o).mem.inuse = mem.inuse := by
  obtain ⟨hinuse, hresult⟩ := free_all o Part.all (by decide)
  refine ⟨fun part => by rw [hresult, if_pos (mem_all part)], ?_⟩
  rw [hinuse, hsound.inuse, Nat.add_sub_cancel]

theorem strays_no_step {p : Place} (h : p.Strays wanted) (q : Place) : ¬ p.Step wanted q := fun hstep => hstep.1 h

theorem finish_no_step (texts : Texts) (q : Place) : ¬ (Place.finish texts).Step wanted q := fun hstep =>
  Option.some_ne_none q hstep.2.symm

theorem rejects_no_step {p : Place} (h : p.Rejects wanted) (q : Place) : ¬ p.Step wanted q := fun hstep =>
  Option.some_ne_none q (hstep.2.symm.trans h.2.1)

theorem parseSafe_iff (string_binding : List Char) : ParseSafe wanted string_binding ↔ ¬ Strays wanted string_binding := by
  constructor
  · rintro hsafe ⟨p, hcomes, hstrays⟩
    obtain ⟨status, o, hparse, -⟩ := hsafe ⟨fun _ => true, 0, 0⟩
    rw [rpc_string_binding_parse] at hparse
    have hreads := parse_reads wanted ⟨fun _ => true, 0, 0⟩ string_binding
    generalize parse wanted string_binding ⟨⟨fun _ => true, 0, 0⟩, fun _ => none⟩ = result at hparse hreads
    cases hreads with
    | value hwalk hgives =>
      obtain ⟨texts, rfl, hnot, -⟩ := hgives
      rw [ends_unique (step_rightUnique wanted) hcomes hwalk (strays_no_step wanted hstrays) (finish_no_step wanted texts)]
        at hstrays
      exact hnot hstrays
    | @stop stop q hwalk hstops =>
      cases stop with
      | fault fault => cases hparse
      | cleanup status o =>
        obtain ⟨-, hrejects, -⟩ := hstops
        rw [ends_unique (step_rightUnique wanted) hcomes hwalk (strays_no_step wanted hstrays) (rejects_no_step wanted hrejects)]
          at hstrays
        exact hrejects.1 hstrays
    | @own stop hstarved =>
      cases stop with
      | fault fault => exact hstarved
      | cleanup status o =>
        obtain ⟨-, ⟨call, hrefused⟩, -⟩ := hstarved
        cases hrefused
  · intro hstrays mem
    have hreads := parse_reads wanted mem string_binding
    rw [rpc_string_binding_parse]
    generalize parse wanted string_binding ⟨mem, fun _ => none⟩ = result at hreads
    cases hreads with
    | @value o p hwalk hgives => exact ⟨.rpc_s_ok, o, rfl, fun hfailed => absurd rfl hfailed⟩
    | @stop stop p hwalk hstops =>
      cases stop with
      | fault fault => exact absurd ⟨p, hwalk, hstops.2⟩ hstrays
      | cleanup status o => exact ⟨status, _, rfl, fun _ => cleanup_frees hstops.2.2⟩
    | @own stop hstarved =>
      cases stop with
      | fault fault => exact hstarved.elim
      | cleanup status o => exact ⟨status, _, rfl, fun _ => cleanup_frees hstarved.2.2⟩

end Safe

end dce.rpc.combind
