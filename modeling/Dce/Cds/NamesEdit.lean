import Dce.Cds.Names

open lib

namespace dce.cds.names

variable {order : ByteOrder} {m : Memory} {p : ℕ}

theorem pointlast_eq {first : SimpleName_t} {rest : List SimpleName_t} {rounds : ℕ}
    (hflags : ∀ sname ∈ first :: rest, sname.sn_flag ≠ SN_null) (h : m.Holds p (imageOf (first :: rest) ++ NullSimpleName))
    (hrounds : (first :: rest).length ≤ rounds) :
    pointlast m rounds p = some (p + (imageOf (first :: rest).dropLast).length) := by
  induction rest generalizing first p rounds with
  | nil =>
    obtain ⟨rounds, rfl⟩ := Nat.exists_eq_add_of_le' (show 1 ≤ rounds from hrounds)
    obtain ⟨hfirst, hnull⟩ := Memory.holds_append_iff.mp h
    rw [imageOf_cons, imageOf_nil, List.append_nil] at hfirst hnull
    have hend : m (p + first.image.length) = SN_null := hnull.get (k := 0) (by decide)
    rw [pointlast, SKIP_SimpleName_of_holds hfirst]
    exact if_pos hend
  | cons second rest ih =>
    obtain ⟨rounds, rfl⟩ := Nat.exists_eq_add_of_le' (show 1 ≤ rounds from le_trans (by simp) hrounds)
    rw [imageOf_cons, List.append_assoc] at h
    obtain ⟨hfirst, hrest⟩ := Memory.holds_append_iff.mp h
    have hnext : m (p + first.image.length) = second.sn_flag := hrest.get (k := 0) (by simp [SimpleName_t.image])
    rw [pointlast, SKIP_SimpleName_of_holds hfirst]
    refine (if_neg ?_).trans ?_
    · rw [hnext]
      exact hflags second (by simp)
    · rw [ih (fun sname hmem => hflags sname (List.mem_cons_of_mem _ hmem)) hrest (by simpa using hrounds)]
      simp
      omega

theorem length_le_imageOf (snames : List SimpleName_t) : 2 * snames.length ≤ (imageOf snames).length := by
  induction snames with
  | nil => simp
  | cons sname snames ih =>
    rw [imageOf_cons, List.length_append, SimpleName_t.length_image, List.length_cons]
    omega

variable {fname : FullName_t}

theorem FullName_t.fn_name_short (fname : FullName_t) : fname.fn_name.length < 2 ^ 16 := by
  have hfits := fname.fits
  rw [FullName_t.fn_name, List.length_append]
  split <;> simp <;> omega

theorem FullName_t.length_image (fname : FullName_t) : (fname.image order).length = 18 + fname.fn_name.length :=
  length_headed fname.root_length _

theorem FullName_t.fn_name_of_ne (fname : FullName_t) (hne : fname.snames ≠ []) :
    fname.fn_name = imageOf fname.snames ++ NullSimpleName := by
  rw [FullName_t.fn_name, fname.only_empty hne, if_pos rfl]

theorem EMPTY_FullName_iff (h : m.Holds p (fname.image order)) : EMPTY_FullName order m p ↔ fname.snames = [] := by
  rw [EMPTY_FullName, EXT16_of_holds fname.root_length h fname.fn_name_short]
  constructor
  · intro hshort
    by_contra hne
    have hsome := length_le_imageOf fname.snames
    have hpos := List.length_pos_of_ne_nil hne
    rw [fname.fn_name_of_ne hne, List.length_append] at hshort
    simp only [NullSimpleName, List.length_cons, List.length_nil] at hshort
    omega
  · intro hnil
    rw [FullName_t.fn_name, hnil]
    split <;> simp [NullSimpleName]

theorem names_pointlast_eq (h : m.Holds p (fname.image order)) (hne : fname.snames ≠ []) :
    names_pointlast order m p = some (fn_name p + (imageOf fname.snames.dropLast).length) := by
  rw [names_pointlast, if_pos (mt (EMPTY_FullName_iff h).mp hne), EXT16_of_holds fname.root_length h fname.fn_name_short]
  have hbody := ((holds_headed_iff fname.root_length).mp h).2.2
  have hsome := length_le_imageOf fname.snames
  have hflags := fname.flags
  rw [fname.fn_name_of_ne hne] at hbody ⊢
  rw [List.length_append]
  cases hsnames : fname.snames with
  | nil => exact absurd hsnames hne
  | cons first rest =>
    rw [hsnames] at hbody hsome hflags
    exact pointlast_eq hflags hbody (by omega)

theorem names_append_holds {fn_root left : List Byte} (ended : Bool) {sname : SimpleName_t} {sname_p : ℕ}
    (hroot : fn_root.length = 16) (hended : left ≠ [] → ended = true)
    (hshort : (left ++ (sname.image ++ NullSimpleName)).length < 2 ^ 16)
    (h : m.Holds p (headed order fn_root (left ++ if ended then NullSimpleName else []))) (hsname : m.Holds sname_p sname.image)
    (happart : sname_p + sname.image.length ≤ p ∨ p + (18 + (left ++ (sname.image ++ NullSimpleName)).length) ≤ sname_p) :
    (names_append order m sname_p p).Holds p (headed order fn_root (left ++ (sname.image ++ NullSimpleName))) ∧
      ∀ a, a < p ∨ p + (18 + (left ++ (sname.image ++ NullSimpleName)).length) ≤ a → names_append order m sname_p p a = m a := by
  have hnull : NullSimpleName.length = 2 := rfl
  simp only [List.length_append, hnull] at hshort happart ⊢
  have hlen : EXT16 order m (fn_length p) = (left ++ if ended then NullSimpleName else []).length := by
    refine EXT16_of_holds hroot h ?_
    cases ended <;> simp [hnull] <;> omega
  rw [names_append, hlen]
  obtain ⟨hname₁, hlen₁, hkept₁⟩ := removeNull_holds hroot hended (by omega) h rfl
  generalize removeNull order m p _ = removed at hname₁ hlen₁ hkept₁ ⊢
  obtain ⟨m₁, fnameLen⟩ := removed
  dsimp only at hname₁ hlen₁ hkept₁ ⊢
  have hsname₁ := hsname.congr fun k hk => hkept₁ (sname_p + k) (by omega)
  obtain ⟨q, hq⟩ : ∃ q, q = p + (18 + left.length) := ⟨_, rfl⟩
  rw [SKIP_FullName_of_holds hroot hname₁ (by omega), ← hq, COPY_SimpleName, LEN_SimpleName_of_holds hsname₁]
  -- the simple name behind those that are there
  have hcopy : (m₁.move sname_p q sname.image.length).Holds q sname.image := hsname₁.moved (k := 0) q _ (by omega)
  have hkept₂ : ∀ a, a < q ∨ q + sname.image.length ≤ a → m₁.move sname_p q sname.image.length a = m₁ a :=
    fun a ha => Memory.move_outside _ ha
  generalize m₁.move sname_p q sname.image.length = m₂ at hcopy hkept₂ ⊢
  rw [SKIP_SimpleName_of_holds hcopy]
  have hend := Memory.holds_write m₂ (q + sname.image.length) NullSimpleName
  have hkept₃ : ∀ a, a < q + sname.image.length ∨ q + sname.image.length + 2 ≤ a →
      m₂.write (q + sname.image.length) NullSimpleName a = m₂ a := fun a ha => Memory.write_outside _ ha
  generalize m₂.write (q + sname.image.length) NullSimpleName = m₃ at hend hkept₃ ⊢
  have hsname₃ : m₃.Holds sname_p sname.image := by
    refine hsname₁.congr fun k hk => ?_
    rw [hkept₃ _ (by omega), hkept₂ _ (by omega)]
  rw [LEN_SimpleName_of_holds hsname₃]
  obtain ⟨hroot₁, -, hleft⟩ := (holds_headed_iff hroot).mp hname₁
  constructor
  · refine INS16_holds hroot ?_ ?_ (by simp only [List.length_append, hnull]; omega) (by simp only [List.length_append, hnull]; omega)
    · refine hroot₁.congr fun k hk => ?_
      rw [hkept₃ _ (by omega), hkept₂ _ (by omega)]
    · refine Memory.holds_append_iff.mpr ⟨hleft.congr fun k hk => ?_, ?_⟩
      · unfold fn_name
        rw [hkept₃ _ (by omega), hkept₂ _ (by omega)]
      · have hplace : fn_name p + left.length = q := by
          unfold fn_name
          omega
        rw [hplace]
        refine Memory.holds_append_iff.mpr ⟨hcopy.congr fun k hk => hkept₃ _ (by omega), hend⟩
  · intro a ha
    rw [INS16_outside (by unfold fn_length; omega), hkept₃ a (by omega), hkept₂ a (by omega), hkept₁ a (by omega)]

theorem imageOf_head_tail {snames : List SimpleName_t} (hne : snames ≠ []) :
    imageOf snames = (snames.head hne).image ++ imageOf snames.tail := by
  rw [← imageOf_cons, List.cons_head_tail]

theorem names_stripright_holds (parent_p : ℕ) (h : m.Holds p (fname.image order)) (hne : fname.snames ≠ []) :
    ∃ m', names_stripright order m p parent_p = some m' ∧
      m'.Holds parent_p (headed order fname.fn_root (imageOf fname.snames.dropLast ++ NullSimpleName)) ∧
      ∀ a, a < parent_p ∨ parent_p + (fname.image order).length ≤ a → m' a = m a := by
  have hnull : NullSimpleName.length = 2 := rfl
  have hsize : LEN_FullName order m p = (fname.image order).length := by
    rw [LEN_FullName, EXT16_of_holds fname.root_length h fname.fn_name_short, fname.length_image]
  have hcopy : (COPY_FullName order m p parent_p).Holds parent_p (fname.image order) := by
    rw [COPY_FullName, hsize]
    exact h.moved (k := 0) parent_p _ (by omega)
  have hkept : ∀ a, a < parent_p ∨ parent_p + (fname.image order).length ≤ a → COPY_FullName order m p parent_p a = m a := by
    intro a ha
    rw [COPY_FullName, hsize]
    exact Memory.move_outside _ ha
  rw [names_stripright]
  generalize COPY_FullName order m p parent_p = m₁ at hcopy hkept ⊢
  dsimp only
  rw [if_pos (mt (EMPTY_FullName_iff hcopy).mp hne), names_pointlast_eq hcopy hne,
    EXT16_of_holds fname.root_length hcopy fname.fn_name_short]
  have hsnames := List.dropLast_append_getLast hne
  have hbody := fname.fn_name_of_ne hne
  have hlast := fname.fn_name_short
  obtain ⟨hroot, -, hnames⟩ := (holds_headed_iff fname.root_length).mp hcopy
  rw [fname.length_image] at hkept ⊢
  rw [← hsnames, imageOf_append, imageOf_cons, imageOf_nil, List.append_nil, List.append_assoc] at hbody
  rw [hbody] at hnames hlast hkept ⊢
  simp only [List.length_append, hnull] at hlast hkept ⊢
  generalize fname.snames.getLast hne = last at hnames hlast hkept ⊢
  generalize fname.snames.dropLast = snames at hnames hlast hkept ⊢
  obtain ⟨hleft, hsname⟩ := Memory.holds_append_iff.mp hnames
  have hsname := (Memory.holds_append_iff.mp hsname).1
  have hcount := last.length_image
  refine ⟨_, rfl, ?_, ?_⟩
  · rw [LEN_SimpleName_of_holds hsname, holds_headed_iff fname.root_length]
    refine ⟨(hroot.write (.inl ?_)).write (.inl ?_), Memory.Holds.write ?_ (.inl ?_), ?_⟩
    · rw [fname.root_length]
      exact le_rfl
    · rw [fname.root_length]
      unfold fn_name
      omega
    · have hstored : (((((imageOf snames).length + (last.image.length + 2) : ℕ) : ℤ) - (last.image.length : ℕ)) % 2 ^ 16).toNat =
          (imageOf snames ++ NullSimpleName).length := by
        rw [List.length_append, hnull]
        omega
      rw [INS16, hstored]
      exact Memory.holds_write ..
    · rw [ByteOrder.length_store]
      unfold fn_name fn_length
      omega
    · refine Memory.holds_append_iff.mpr ⟨(hleft.write (.inr ?_)).write (.inl le_rfl), Memory.holds_write ..⟩
      rw [ByteOrder.length_store]
      unfold fn_name fn_length
      omega
  · intro a ha
    rw [Memory.write_outside _ (by rw [hnull]; unfold fn_name; omega), INS16_outside (by unfold fn_length; omega), hkept a (by omega)]

/-- The unresolved and the resolved name of a progress record, the one directly behind the other. Their simple names fit a
full name. -/
structure ProgressNames where
  unresolved : FullName_t
  resolved : FullName_t
  fit : (imageOf unresolved.snames).length + (imageOf resolved.snames).length + NullSimpleName.length < 2 ^ 16

namespace ProgressNames

def image (order : ByteOrder) (names : ProgressNames) : List Byte := names.unresolved.image order ++ names.resolved.image order

theorem take_tail (names : ProgressNames) : (imageOf (names.unresolved.snames.take 1)).length +
    (imageOf names.unresolved.snames.tail).length = (imageOf names.unresolved.snames).length := by
  rw [← List.length_append, ← imageOf_append, ← List.drop_one, List.take_append_drop]

/-- The first simple name of the unresolved name, if it has one, moved to the end of the resolved name. -/
def step (names : ProgressNames) : ProgressNames where
  unresolved :=
    { fn_root := names.unresolved.fn_root
      snames := names.unresolved.snames.tail
      ended := names.unresolved.ended
      root_length := names.unresolved.root_length
      flags := fun sname hmem => names.unresolved.flags sname (List.mem_of_mem_tail hmem)
      only_empty := fun hne => names.unresolved.only_empty (by rintro hnil; rw [hnil] at hne; exact hne rfl)
      fits := by
        have hsplit := names.take_tail
        have hfits := names.unresolved.fits
        omega }
  resolved :=
    { fn_root := names.resolved.fn_root
      snames := names.resolved.snames ++ names.unresolved.snames.take 1
      ended := names.resolved.ended || !names.unresolved.snames.isEmpty
      root_length := names.resolved.root_length
      flags := by
        intro sname hmem
        obtain hmem | hmem := List.mem_append.mp hmem
        · exact names.resolved.flags sname hmem
        · exact names.unresolved.flags sname (List.mem_of_mem_take hmem)
      only_empty := by
        intro hne
        cases hnil : names.unresolved.snames with
        | nil =>
          rw [hnil, List.take_nil, List.append_nil] at hne
          simp [names.resolved.only_empty hne]
        | cons first rest => simp
      fits := by
        have hsplit := names.take_tail
        have hfit := names.fit
        rw [imageOf_append, List.length_append]
        omega }
  fit := by
    have hsplit := names.take_tail
    have hfit := names.fit
    dsimp only
    rw [imageOf_append, List.length_append]
    omega

/-- What `names_swap` promises: the first simple name has moved, the names take the space that they took, and nothing behind
them is altered. -/
structure Swapped (order : ByteOrder) (m : Memory) (p : ℕ) (names : ProgressNames) : Prop where
  holds : (names_swap order m p).1.Holds p (names.step.image order)
  resolved_p : (names_swap order m p).2 = p + (names.step.unresolved.image order).length
  space : (names.step.image order).length = (names.image order).length
  behind : ∀ a, a < p ∨ p + (names.image order).length ≤ a → (names_swap order m p).1 a = m a

variable {names : ProgressNames}

theorem step_unresolved_snames : names.step.unresolved.snames = names.unresolved.snames.drop 1 := List.drop_one.symm

theorem step_resolved_snames : names.step.resolved.snames = names.resolved.snames ++ names.unresolved.snames.take 1 := rfl

theorem step_of_nil (hnil : names.unresolved.snames = []) : names.step = names := by
  obtain ⟨⟨_, snames, ended, _, _, _, _⟩, ⟨_, _, _, _, _, _, _⟩, _⟩ := names
  subst hnil
  simp [step]

theorem image_step (hne : names.unresolved.snames ≠ []) : names.step.image order =
    headed order names.unresolved.fn_root (imageOf names.unresolved.snames.tail ++ NullSimpleName) ++
      headed order names.resolved.fn_root
        (imageOf names.resolved.snames ++ ((names.unresolved.snames.head hne).image ++ NullSimpleName)) := by
  have hended := names.unresolved.only_empty hne
  rw [image, FullName_t.image, FullName_t.image, FullName_t.fn_name, FullName_t.fn_name, step]
  dsimp only
  rw [if_pos hended, if_pos (by simp [hne]), List.take_one, List.head?_eq_some_head hne]
  simp

theorem length_step (order : ByteOrder) : (names.step.image order).length = (names.image order).length ↔
    names.unresolved.snames = [] ∨ names.resolved.ended = true := by
  by_cases hne : names.unresolved.snames = []
  · simp [step_of_nil hne, hne]
  · have hsplit := congrArg List.length (imageOf_head_tail hne)
    rw [image_step hne, image, FullName_t.image, FullName_t.image, names.unresolved.fn_name_of_ne hne]
    simp only [hne, false_or, List.length_append, length_headed names.unresolved.root_length,
      length_headed names.resolved.root_length, FullName_t.fn_name] at hsplit ⊢
    rw [hsplit]
    cases names.resolved.ended <;> simp [NullSimpleName] <;> omega

theorem names_swap_step (h : m.Holds p (names.image order)) :
    (names_swap order m p).1.Holds p (names.step.image order) ∧
      (names_swap order m p).2 = p + (names.step.unresolved.image order).length ∧
      ∀ a, a < p ∨ p + (names.step.image order).length ≤ a → (names_swap order m p).1 a = m a := by
  have hparts := Memory.holds_append_iff.mp h
  by_cases hne : names.unresolved.snames = []
  · have hempty := (EMPTY_FullName_iff hparts.1).mpr hne
    have hskip := SKIP_FullName_of_holds names.unresolved.root_length hparts.1 names.unresolved.fn_name_short
    rw [step_of_nil hne, names_swap, if_pos hempty, names.unresolved.length_image]
    exact ⟨h, hskip, fun a _ => rfl⟩
  · have hbody := names.unresolved.fn_name_of_ne hne
    have hfit := names.fit
    have hfits := names.unresolved.fits
    have hnull : NullSimpleName.length = 2 := rfl
    have hsplit := imageOf_head_tail hne
    rw [hsplit, List.length_append] at hfit hfits
    have hunresolved : (names.step.unresolved.image order).length =
        (headed order names.unresolved.fn_root (imageOf names.unresolved.snames.tail ++ NullSimpleName)).length := by
      rw [FullName_t.image, FullName_t.fn_name, step]
      simp only [names.unresolved.only_empty hne, ↓reduceIte]
    rw [image_step hne, hunresolved]
    refine names_swap_holds names.resolved.ended names.unresolved.root_length names.resolved.root_length ?_ ?_ ?_ ?_ ?_
    · intro hsome
      refine names.resolved.only_empty fun hnil => hsome ?_
      rw [hnil]
      rfl
    · simp [hnull]
    · simp only [List.length_append]
      omega
    · simp only [List.length_append]
      omega
    · rw [image, FullName_t.image, hbody, hsplit, List.append_assoc] at h
      exact h

theorem swapped_iff (h : m.Holds p (names.image order)) :
    Swapped order m p names ↔ names.unresolved.snames = [] ∨ names.resolved.ended = true := by
  obtain ⟨hholds, hpointer, hbehind⟩ := names_swap_step h
  constructor
  · exact fun hswapped => (length_step order).mp hswapped.space
  · intro hroom
    have hspace := (length_step order).mpr hroom
    exact ⟨hholds, hpointer, hspace, by rwa [hspace] at hbehind⟩

def swaps (order : ByteOrder) (p : ℕ) (n : ℕ) (m : Memory) : Memory := (fun m => (names_swap order m p).1)^[n] m

theorem swaps_holds (n : ℕ) (h : m.Holds p (names.image order)) : (swaps order p n m).Holds p ((step^[n] names).image order) := by
  induction n generalizing m names with
  | zero => exact h
  | succ n ih =>
    rw [swaps, Function.iterate_succ_apply, Function.iterate_succ_apply]
    exact ih (names_swap_step h).1

theorem steps_snames (n : ℕ) (names : ProgressNames) : (step^[n] names).unresolved.snames = names.unresolved.snames.drop n ∧
    (step^[n] names).resolved.snames ++ (step^[n] names).unresolved.snames =
      names.resolved.snames ++ names.unresolved.snames := by
  induction n generalizing names with
  | zero => exact ⟨rfl, rfl⟩
  | succ n ih =>
    rw [Function.iterate_succ_apply]
    obtain ⟨hdrop, hall⟩ := ih names.step
    refine ⟨hdrop.trans ?_, hall.trans ?_⟩
    · rw [step_unresolved_snames, List.drop_drop, Nat.add_comm]
    · rw [step_unresolved_snames, step_resolved_snames, List.append_assoc, List.take_append_drop]

theorem step_ended (hne : names.unresolved.snames ≠ []) : names.step.unresolved.ended = true ∧ names.step.resolved.ended = true :=
  ⟨names.unresolved.only_empty hne, by simp [step, hne]⟩

end ProgressNames

theorem append_stripped {parent_p : ℕ} (h : m.Holds p (fname.image order)) (hne : fname.snames ≠ [])
    (happart : p + (fname.image order).length ≤ parent_p ∨ parent_p + (fname.image order).length ≤ p) :
    ∃ last_p m', names_pointlast order m p = some last_p ∧ names_stripright order m p parent_p = some m' ∧
      (names_append order m' last_p parent_p).Holds parent_p (fname.image order) ∧
      ∀ a, a < parent_p ∨ parent_p + (fname.image order).length ≤ a → names_append order m' last_p parent_p a = m a := by
  obtain ⟨m', hstripped, hparent, hkept⟩ := names_stripright_holds parent_p h hne
  refine ⟨_, m', names_pointlast_eq h hne, hstripped, ?_⟩
  have hnames := ((holds_headed_iff fname.root_length).mp h).2.2
  have hshort := fname.fn_name_short
  have hsnames := List.dropLast_append_getLast hne
  have hbody := fname.fn_name_of_ne hne
  rw [← hsnames, imageOf_append, imageOf_cons, imageOf_nil, List.append_nil, List.append_assoc] at hbody
  rw [fname.length_image] at happart hkept ⊢
  rw [FullName_t.image, hbody]
  rw [hbody] at hnames hshort happart hkept
  generalize fname.snames.getLast hne = last at hnames hshort happart hkept ⊢
  generalize fname.snames.dropLast = snames at hparent hnames hshort happart hkept ⊢
  have hlast := (Memory.holds_append_iff.mp (Memory.holds_append_iff.mp hnames).2).1
  have hlast' : m'.Holds (fn_name p + (imageOf snames).length) last.image := by
    refine hlast.congr fun k hk => hkept _ ?_
    simp only [List.length_append] at happart
    simp only [List.length_append]
    unfold fn_name
    omega
  obtain ⟨hholds, hkept'⟩ := names_append_holds true fname.root_length (fun _ => rfl) hshort hparent hlast' (by
    simp only [List.length_append] at happart
    simp only [List.length_append]
    unfold fn_name
    omega)
  exact ⟨hholds, fun a ha => (hkept' a ha).trans (hkept a ha)⟩

def abbreviated : ProgressNames where
  unresolved := ⟨List.replicate 16 0, [⟨SN_normal, [0x61], by decide⟩], true, rfl, by decide, by decide, by decide⟩
  resolved := ⟨List.replicate 16 0, [], false, rfl, by decide, by decide, by decide⟩
  fit := by decide

def abbreviatedRecord : Memory := Memory.write (fun _ => 0xff) 0 (abbreviated.image .big)

end dce.cds.names
