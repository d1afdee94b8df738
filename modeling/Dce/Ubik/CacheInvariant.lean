import Dce.Ubik.BufferCache

open lib

namespace dce.ubik.buffer

/-- What a transaction sees of the files, byte by byte. -/
abbrev View := ℤ → ℕ → Byte

def onDisk (d : Disk) : View := fun file i => (d file).data.byte i

def Whole (d : Disk) (file : ℤ) (page : ℕ) : Prop := (page + 1) * UBIK_PAGESIZE ≤ (d file).data.length

def Partial (d : Disk) (file : ℤ) (page : ℕ) : Prop :=
  page * UBIK_PAGESIZE < (d file).data.length ∧ (d file).data.length < (page + 1) * UBIK_PAGESIZE

/-- The bytes of a buffered page are those that the transaction sees. -/
def Fits (view : View) (file : ℤ) (page : ℕ) (data : Page) : Prop :=
  ∀ offset < UBIK_PAGESIZE, data offset = view file (page * UBIK_PAGESIZE + offset)

/-- The file has the whole page, as the transaction sees it. -/
def Stored (d : Disk) (view : View) (file : ℤ) (page : ℕ) : Prop :=
  Whole d file page ∧
    ∀ offset < UBIK_PAGESIZE, view file (page * UBIK_PAGESIZE + offset) = (d file).data.byte (page * UBIK_PAGESIZE + offset)

/-- The buffers show the transaction what it is to see. -/
structure Shows (d : Disk) (view : View) (c : Cache) : Prop where
  last : c.LastBuffer < c.nbuffers
  chained : ∀ b < c.nbuffers, (c.buffers b).file ≠ BADFID → b ∈ c.phTable (pHash (c.buffers b).file)
  chain : ∀ i, ∀ b ∈ c.phTable i, b < c.nbuffers ∧ (c.buffers b).hashIndex = i
  nodup : ∀ i, (c.phTable i).Nodup
  single : ∀ a < c.nbuffers, ∀ b < c.nbuffers, (c.buffers a).file ≠ BADFID → (c.buffers a).file = (c.buffers b).file →
    (c.buffers a).page = (c.buffers b).page → a = b
  modified : ∀ b < c.nbuffers, (c.buffers b).dirty = true → (c.buffers b).file ≠ BADFID
  shown : ∀ b < c.nbuffers, (c.buffers b).file ≠ BADFID → Fits view (c.buffers b).file (c.buffers b).page (c.buffers b).data
  clean : ∀ b < c.nbuffers, (c.buffers b).file ≠ BADFID → (c.buffers b).dirty = false →
    Whole d (c.buffers b).file (c.buffers b).page
  elsewhere : ∀ file page, file ≠ BADFID →
    (∀ b < c.nbuffers, (c.buffers b).file = file → (c.buffers b).page = page → (c.buffers b).dirty = false) →
    ∀ offset < UBIK_PAGESIZE, view file (page * UBIK_PAGESIZE + offset) = (d file).data.byte (page * UBIK_PAGESIZE + offset)

def Cache.Buffered (c : Cache) (file : ℤ) (page : ℕ) : Prop := ∃ b < c.nbuffers, c.holds file page b = true

theorem Cache.holds_iff {c : Cache} {file : ℤ} {page b : ℕ} :
    c.holds file page b = true ↔ (c.buffers b).page = page ∧ (c.buffers b).file = file := by
  simp [Cache.holds]

/-- The step from `c` to `c'` makes `tb` the buffer of a page that no other has. -/
structure Takes (c : Cache) (tb : ℕ) (file : ℤ) (page : ℕ) (c' : Cache) : Prop where
  count : c'.nbuffers = c.nbuffers
  bound : tb < c.nbuffers
  last : c'.LastBuffer < c.nbuffers
  other : ∀ b, b ≠ tb → c'.buffers b = c.buffers b
  fileEq : (c'.buffers tb).file = file
  pageEq : (c'.buffers tb).page = page
  hash : (c'.buffers tb).hashIndex = pHash file
  chain : ∀ i b, b ∈ c'.phTable i ↔ b = tb ∧ i = pHash file ∨ b ≠ tb ∧ b ∈ c.phTable i
  nodup : ∀ i, (c'.phTable i).Nodup
  sole : ∀ b < c.nbuffers, b ≠ tb → ¬((c.buffers b).page = page ∧ (c.buffers b).file = file)
  free : (c.buffers tb).dirty = true → (c.buffers tb).file = file ∧ (c.buffers tb).page = page

section Steps

variable {d : Disk} {view : View} {c c' : Cache} {tb page : ℕ} {file : ℤ}

theorem Takes.modify (h : Takes c tb file page c') {f : Buffer → Buffer}
    (hf : ∀ buffer, (f buffer).file = buffer.file ∧ (f buffer).page = buffer.page ∧ (f buffer).hashIndex = buffer.hashIndex) :
    Takes c tb file page (c'.modify tb f) := by
  obtain ⟨hfile, hpage, hhash⟩ := hf (c'.buffers tb)
  refine { h with
    other := fun b hb => (c'.modify_other f hb).trans (h.other b hb)
    fileEq := ?_
    pageEq := ?_
    hash := ?_ }
  · rw [Cache.modify_self, hfile, h.fileEq]
  · rw [Cache.modify_self, hpage, h.pageEq]
  · rw [Cache.modify_self, hhash, h.hash]

theorem Shows.take (h : Shows d view c) (htakes : Takes c tb file page c') (hfile : file ≠ BADFID) {view' : View}
    (hview : ∀ f i, ¬(f = file ∧ i / UBIK_PAGESIZE = page) → view' f i = view f i)
    (hfits : Fits view' file page (c'.buffers tb).data)
    (hclean : (c'.buffers tb).dirty = false → Stored d view' file page) : Shows d view' c' := by
  have hpageOf : ∀ q offset, offset < UBIK_PAGESIZE → (q * UBIK_PAGESIZE + offset) / UBIK_PAGESIZE = q := by
    intro q offset hoffset
    simp only [UBIK_PAGESIZE] at hoffset ⊢
    omega
  have hviewOther : ∀ f q, ¬(f = file ∧ q = page) → ∀ offset < UBIK_PAGESIZE,
      view' f (q * UBIK_PAGESIZE + offset) = view f (q * UBIK_PAGESIZE + offset) := by
    intro f q hne offset hoffset
    refine hview f _ fun heq => hne ⟨heq.1, ?_⟩
    rw [← hpageOf q offset hoffset, heq.2]
  have hcases : ∀ b < c.nbuffers, b = tb ∨ b ≠ tb ∧ c'.buffers b = c.buffers b ∧
      ¬((c.buffers b).file = file ∧ (c.buffers b).page = page) := by
    intro b hb
    by_cases hbtb : b = tb
    · exact .inl hbtb
    · exact .inr ⟨hbtb, htakes.other b hbtb, fun heq => htakes.sole b hb hbtb heq.symm⟩
  refine ⟨htakes.count ▸ htakes.last, fun b hb hvalid => ?_, fun i b hb => ?_, htakes.nodup,
    fun a ha b hb hvalid hfileEq hpageEq => ?_, fun b hb hdirty => ?_, fun b hb hvalid => ?_, fun b hb hvalid hnew => ?_,
    fun f q hf hnone offset hoffset => ?_⟩
  · rcases hcases b (htakes.count ▸ hb) with rfl | ⟨hne, hsame, -⟩
    · exact (htakes.chain _ b).mpr (.inl ⟨rfl, congrArg pHash htakes.fileEq⟩)
    · rw [hsame] at hvalid ⊢
      exact (htakes.chain _ b).mpr (.inr ⟨hne, h.chained b (htakes.count ▸ hb) hvalid⟩)
  · rw [htakes.count]
    rcases (htakes.chain i b).mp hb with ⟨rfl, rfl⟩ | ⟨hne, hold⟩
    · exact ⟨htakes.bound, htakes.hash⟩
    · rw [htakes.other b hne]
      exact h.chain i b hold
  · rcases hcases a (htakes.count ▸ ha) with rfl | ⟨-, hsameA, hotherA⟩
    · rcases hcases b (htakes.count ▸ hb) with rfl | ⟨-, hsameB, hotherB⟩
      · rfl
      · rw [hsameB, htakes.fileEq] at hfileEq
        rw [hsameB, htakes.pageEq] at hpageEq
        exact absurd ⟨hfileEq.symm, hpageEq.symm⟩ hotherB
    · rcases hcases b (htakes.count ▸ hb) with rfl | ⟨-, hsameB, -⟩
      · rw [hsameA, htakes.fileEq] at hfileEq
        rw [hsameA, htakes.pageEq] at hpageEq
        exact absurd ⟨hfileEq, hpageEq⟩ hotherA
      · rw [hsameA] at hvalid
        rw [hsameA, hsameB] at hfileEq hpageEq
        exact h.single a (htakes.count ▸ ha) b (htakes.count ▸ hb) hvalid hfileEq hpageEq
  · rcases hcases b (htakes.count ▸ hb) with rfl | ⟨-, hsame, -⟩
    · rw [htakes.fileEq]
      exact hfile
    · rw [hsame] at hdirty ⊢
      exact h.modified b (htakes.count ▸ hb) hdirty
  · rcases hcases b (htakes.count ▸ hb) with rfl | ⟨-, hsame, hother⟩
    · rw [htakes.fileEq, htakes.pageEq]
      exact hfits
    · rw [hsame] at hvalid ⊢
      intro offset hoffset
      rw [hviewOther _ _ hother offset hoffset]
      exact h.shown b (htakes.count ▸ hb) hvalid offset hoffset
  · rcases hcases b (htakes.count ▸ hb) with rfl | ⟨-, hsame, -⟩
    · rw [htakes.fileEq, htakes.pageEq]
      exact (hclean hnew).1
    · rw [hsame] at hvalid hnew ⊢
      exact h.clean b (htakes.count ▸ hb) hvalid hnew
  · by_cases hpage : f = file ∧ q = page
    · obtain ⟨rfl, rfl⟩ := hpage
      exact (hclean (hnone tb (htakes.count.symm ▸ htakes.bound) htakes.fileEq htakes.pageEq)).2 offset hoffset
    · rw [hviewOther f q hpage offset hoffset]
      refine h.elsewhere f q hf (fun b hb hbfile hbpage => ?_) offset hoffset
      by_cases hbtb : b = tb
      · subst hbtb
        by_contra hdirty
        obtain ⟨hfile', hpage'⟩ := htakes.free (Bool.not_eq_false _ ▸ hdirty)
        exact hpage ⟨hbfile.symm.trans hfile', hbpage.symm.trans hpage'⟩
      · have hsame := htakes.other b hbtb
        rw [← hsame]
        exact hnone b (htakes.count.symm ▸ hb) (hsame.symm ▸ hbfile) (hsame.symm ▸ hbpage)

theorem Shows.drop (h : Shows d view c) (htakes : Takes c tb file page c') (hold : (c.buffers tb).dirty = false)
    {f : Buffer → Buffer} (hf : ∀ buffer, (f buffer).file = BADFID ∧ (f buffer).hashIndex = buffer.hashIndex ∧
      (f buffer).dirty = buffer.dirty) (hclean : (c'.buffers tb).dirty = false) : Shows d view (c'.modify tb f) := by
  obtain ⟨hfile, hhash, hdirty⟩ := hf (c'.buffers tb)
  have hgone : ((c'.modify tb f).buffers tb).file = BADFID := by rw [Cache.modify_self, hfile]
  have hcases : ∀ b, ((c'.modify tb f).buffers b).file ≠ BADFID → b ≠ tb ∧ (c'.modify tb f).buffers b = c.buffers b := by
    intro b hvalid
    have hne : b ≠ tb := fun heq => hvalid (heq ▸ hgone)
    exact ⟨hne, (c'.modify_other f hne).trans (htakes.other b hne)⟩
  refine ⟨htakes.count ▸ htakes.last, fun b hb hvalid => ?_, fun i b hb => ?_, htakes.nodup,
    fun a ha b hb hvalid hfileEq hpageEq => ?_, fun b hb hmodified => ?_, fun b hb hvalid => ?_, fun b hb hvalid hnew => ?_,
    fun f' q hf' hnone offset hoffset => ?_⟩
  · obtain ⟨hne, hsame⟩ := hcases b hvalid
    rw [hsame] at hvalid ⊢
    exact (htakes.chain _ b).mpr (.inr ⟨hne, h.chained b (htakes.count ▸ hb) hvalid⟩)
  · change b < c'.nbuffers ∧ _
    rw [htakes.count]
    rcases (htakes.chain i b).mp hb with ⟨rfl, rfl⟩ | ⟨hne, hmem⟩
    · rw [Cache.modify_self, hhash]
      exact ⟨htakes.bound, htakes.hash⟩
    · rw [c'.modify_other f hne, htakes.other b hne]
      exact h.chain i b hmem
  · obtain ⟨-, hsameA⟩ := hcases a hvalid
    obtain ⟨-, hsameB⟩ := hcases b (hfileEq ▸ hvalid)
    rw [hsameA] at hvalid
    rw [hsameA, hsameB] at hfileEq hpageEq
    exact h.single a (htakes.count ▸ ha) b (htakes.count ▸ hb) hvalid hfileEq hpageEq
  · have hne : b ≠ tb := by
      rintro rfl
      rw [Cache.modify_self, hdirty, hclean] at hmodified
      exact absurd hmodified (by decide)
    rw [c'.modify_other f hne, htakes.other b hne] at hmodified ⊢
    exact h.modified b (htakes.count ▸ hb) hmodified
  · obtain ⟨-, hsame⟩ := hcases b hvalid
    rw [hsame] at hvalid ⊢
    exact h.shown b (htakes.count ▸ hb) hvalid
  · obtain ⟨-, hsame⟩ := hcases b hvalid
    rw [hsame] at hvalid hnew ⊢
    exact h.clean b (htakes.count ▸ hb) hvalid hnew
  · refine h.elsewhere f' q hf' (fun b hb hbfile hbpage => ?_) offset hoffset
    by_cases hbtb : b = tb
    · exact hbtb ▸ hold
    · have hsame : (c'.modify tb f).buffers b = c.buffers b := (c'.modify_other f hbtb).trans (htakes.other b hbtb)
      rw [← hsame]
      exact hnone b (htakes.count.symm ▸ hb) (hsame.symm ▸ hbfile) (hsame.symm ▸ hbpage)

end Steps

section Slots

/-- `newslot` would find a buffer: an unused one that is not modified, of an access time below that with which its search
starts. -/
def Cache.Room (c : Cache) : Prop :=
  ∃ b < c.nbuffers, (c.buffers b).lockers = 0 ∧ (c.buffers b).dirty = false ∧ (c.buffers b).accesstime < 999999999

variable {d : Disk} {view : View} {c c' : Cache} {tb page : ℕ} {file : ℤ}

theorem search_foldl (c : Cache) (bs : List ℕ) (best : Option ℕ × ℕ) :
    ((bs.foldl (fun best tp =>
        if (c.buffers tp).lockers = 0 ∧ (c.buffers tp).dirty = false ∧ (c.buffers tp).accesstime < best.2 then
          (some tp, (c.buffers tp).accesstime)
        else best) best = best ∧
      ∀ b ∈ bs, ¬((c.buffers b).lockers = 0 ∧ (c.buffers b).dirty = false ∧ (c.buffers b).accesstime < best.2)) ∨
    ∃ b ∈ bs, (bs.foldl (fun best tp =>
        if (c.buffers tp).lockers = 0 ∧ (c.buffers tp).dirty = false ∧ (c.buffers tp).accesstime < best.2 then
          (some tp, (c.buffers tp).accesstime)
        else best) best).1 = some b ∧ (c.buffers b).lockers = 0 ∧ (c.buffers b).dirty = false ∧
      (c.buffers b).accesstime < best.2) := by
  induction bs generalizing best with
  | nil => exact .inl ⟨rfl, fun b hb => absurd hb List.not_mem_nil⟩
  | cons tp bs ih =>
    rw [List.foldl_cons]
    by_cases htp : (c.buffers tp).lockers = 0 ∧ (c.buffers tp).dirty = false ∧ (c.buffers tp).accesstime < best.2
    · rw [if_pos htp]
      right
      rcases ih (some tp, (c.buffers tp).accesstime) with ⟨hsame, -⟩ | ⟨b, hb, hbest, hlockers, hdirty, htime⟩
      · exact ⟨tp, List.mem_cons_self, by rw [hsame], htp⟩
      · exact ⟨b, List.mem_cons_of_mem tp hb, hbest, hlockers, hdirty, htime.trans htp.2.2⟩
    · rw [if_neg htp]
      rcases ih best with ⟨hsame, hnone⟩ | ⟨b, hb, hfound⟩
      · exact .inl ⟨hsame, List.forall_mem_cons.mpr ⟨htp, hnone⟩⟩
      · exact .inr ⟨b, List.mem_cons_of_mem tp hb, hfound⟩

theorem search_some (hsearch : c.search.1 = some tb) :
    tb < c.nbuffers ∧ (c.buffers tb).lockers = 0 ∧ (c.buffers tb).dirty = false := by
  rcases search_foldl c (List.range c.nbuffers) (none, 999999999) with ⟨hsame, -⟩ | ⟨b, hb, hbest, hlockers, hdirty, -⟩
  · rw [Cache.search, hsame] at hsearch
    exact absurd hsearch (by simp)
  · rw [Cache.search, hbest] at hsearch
    obtain rfl := Option.some.inj hsearch
    exact ⟨List.mem_range.mp hb, hlockers, hdirty⟩

theorem search_none (hroom : c.Room) : c.search.1 ≠ none := by
  obtain ⟨b, hb, hfree⟩ := hroom
  rcases search_foldl c (List.range c.nbuffers) (none, 999999999) with ⟨-, hnone⟩ | ⟨found, -, hbest, -⟩
  · exact absurd hfree (hnone b (List.mem_range.mpr hb))
  · rw [Cache.search, hbest]
    exact Option.some_ne_none found

theorem newslot_takes (h : Shows d view c) (hmiss : ¬c.Buffered file page) (hslot : c.newslot file page = some (tb, c')) :
    Takes c tb file page c' ∧ (c.buffers tb).dirty = false ∧ (c'.buffers tb).dirty = false := by
  unfold Cache.newslot at hslot
  cases hsearch : c.search.1 with
  | none =>
    rw [hsearch] at hslot
    exact absurd hslot (by simp)
  | some pp =>
    rw [hsearch] at hslot
    obtain ⟨rfl, rfl⟩ := Prod.mk.inj (Option.some.inj hslot)
    obtain ⟨hbound, -, hclean⟩ := search_some hsearch
    have hoff : ∀ i b, b ∈ Function.update c.phTable (c.buffers pp).hashIndex ((c.phTable (c.buffers pp).hashIndex).erase pp) i ↔
        b ≠ pp ∧ b ∈ c.phTable i := by
      intro i b
      by_cases hi : i = (c.buffers pp).hashIndex
      · subst hi
        rw [Function.update_self, (h.nodup _).mem_erase_iff]
      · rw [Function.update_of_ne hi]
        refine (and_iff_right_of_imp fun hb heq => hi ?_).symm
        rw [← heq]
        exact (h.chain i b hb).2.symm
    have hnodup : ∀ i,
        (Function.update c.phTable (c.buffers pp).hashIndex ((c.phTable (c.buffers pp).hashIndex).erase pp) i).Nodup := by
      intro i
      by_cases hi : i = (c.buffers pp).hashIndex
      · rw [hi, Function.update_self]
        exact (h.nodup _).erase pp
      · rw [Function.update_of_ne hi]
        exact h.nodup i
    refine ⟨⟨rfl, hbound, hbound, fun b hb => ?_, ?_, ?_, ?_, fun i b => ?_, fun i => ?_,
      fun b hb _ heq => hmiss ⟨b, hb, Cache.holds_iff.mpr heq⟩, fun hdirty => ?_⟩, hclean, ?_⟩
    · simp [Cache.FixupBucket, Cache.modify, hb]
    · simp [Cache.FixupBucket, Cache.modify]
    · simp [Cache.FixupBucket, Cache.modify]
    · simp [Cache.FixupBucket, Cache.modify]
    · by_cases hi : i = pHash file
      · subst hi
        simp only [Cache.FixupBucket, Cache.modify, Function.update_self, List.mem_cons, hoff]
        simp
      · simp only [Cache.FixupBucket, Cache.modify, Function.update_self, Function.update_of_ne hi, hoff]
        simp [hi]
    · by_cases hi : i = pHash file
      · subst hi
        simp only [Cache.FixupBucket, Cache.modify, Function.update_self]
        exact List.nodup_cons.mpr ⟨fun hmem => ((hoff _ _).mp hmem).1 rfl, hnodup _⟩
      · simp only [Cache.FixupBucket, Cache.modify, Function.update_self, Function.update_of_ne hi]
        exact hnodup i
    · exact absurd (hdirty.symm.trans hclean) (by decide)
    · simp [Cache.FixupBucket, Cache.modify, hclean]

theorem newslot_room (file : ℤ) (page : ℕ) (hroom : c.Room) : ∃ tb c', c.newslot file page = some (tb, c') := by
  unfold Cache.newslot
  cases hsearch : c.search.1 with
  | none => exact absurd hsearch (search_none hroom)
  | some pp => exact ⟨_, _, rfl⟩

end Slots

section Reads

variable {d : Disk} {view : View} {c c' : Cache} {tb page : ℕ} {file : ℤ}

theorem Shows.again (h : Shows d view c) (hfile : file ≠ BADFID) (hbound : tb < c.nbuffers) (hholds : c.holds file page tb = true)
    {last time : ℕ} (hlast : last < c.nbuffers) {f : Buffer → Buffer}
    (hf : ∀ buffer, (f buffer).file = buffer.file ∧ (f buffer).page = buffer.page ∧ (f buffer).hashIndex = buffer.hashIndex) :
    Takes c tb file page ({ c with LastBuffer := last, timecounter := time }.modify tb f) := by
  obtain ⟨hpage, hfileEq⟩ := Cache.holds_iff.mp hholds
  have hvalid : (c.buffers tb).file ≠ BADFID := hfileEq ▸ hfile
  have hchained := h.chained tb hbound hvalid
  rw [hfileEq] at hchained
  have hhash : (c.buffers tb).hashIndex = pHash file := (h.chain _ tb hchained).2
  have hnow : Takes c tb file page { c with LastBuffer := last, timecounter := time } := by
    refine ⟨rfl, hbound, hlast, fun b _ => rfl, hfileEq, hpage, hhash, fun i b => ?_, h.nodup, fun b hb hne heq => ?_,
      fun _ => ⟨hfileEq, hpage⟩⟩
    · by_cases hb : b = tb
      · subst hb
        constructor
        · intro hmem
          exact .inl ⟨rfl, (h.chain i b hmem).2.symm.trans hhash⟩
        · rintro (⟨-, rfl⟩ | ⟨hne, -⟩)
          · exact hchained
          · exact absurd rfl hne
      · simp [hb]
    · exact hne (h.single b hb tb hbound (heq.2 ▸ hfile) (heq.2.trans hfileEq.symm) (heq.1.trans hpage.symm))
  exact hnow.modify hf

theorem uphys_read_isSome : (uphys_read d file (page * UBIK_PAGESIZE) UBIK_PAGESIZE).isSome ↔ Whole d file page := by
  unfold uphys_read ByteFile.read Whole
  split
  · next hread =>
    refine iff_of_true rfl ?_
    simp only [UBIK_PAGESIZE] at hread ⊢
    omega
  · next hread =>
    refine iff_of_false (by simp) ?_
    simp only [UBIK_PAGESIZE] at hread ⊢
    omega

/-- What `DRead` comes back with. -/
inductive ReadsPage (d : Disk) (view : View) (c : Cache) (file : ℤ) (page : ℕ) : Option ℕ × Cache → Prop where
  | found {tb : ℕ} {c' : Cache} (htakes : Takes c tb file page c') (hfits : Fits view file page (c'.buffers tb).data)
    (hclean : (c'.buffers tb).dirty = false → Stored d view file page) : ReadsPage d view c file page (some tb, c')
  | failed {c' : Cache} (hmiss : ¬c.Buffered file page) (hshows : Shows d view c') (hmissed : ¬c'.Buffered file page)
    (hwhy : Whole d file page → ¬c.Room) : ReadsPage d view c file page (none, c')

theorem DRead_spec (page : ℕ) (h : Shows d view c) (hfile : file ≠ BADFID) : ReadsPage d view c file page (c.DRead d file page) := by
  have hhit : ∀ {tb last time : ℕ} {f : Buffer → Buffer}, tb < c.nbuffers → c.holds file page tb = true → last < c.nbuffers →
      (∀ buffer, (f buffer).file = buffer.file ∧ (f buffer).page = buffer.page ∧ (f buffer).hashIndex = buffer.hashIndex) →
      (∀ buffer, (f buffer).data = buffer.data ∧ (f buffer).dirty = buffer.dirty) →
      ReadsPage d view c file page (some tb, { c with LastBuffer := last, timecounter := time }.modify tb f) := by
    intro tb last time f hbound hholds hlast hf hdata
    obtain ⟨hpage, hfileEq⟩ := Cache.holds_iff.mp hholds
    have hvalid : (c.buffers tb).file ≠ BADFID := hfileEq ▸ hfile
    refine .found (h.again hfile hbound hholds hlast hf) ?_ fun hclean => ?_
    · rw [Cache.modify_self, (hdata _).1, ← hpage, ← hfileEq]
      exact h.shown tb hbound hvalid
    · rw [Cache.modify_self, (hdata _).2] at hclean
      refine ⟨hpage ▸ hfileEq ▸ h.clean tb hbound hvalid hclean, h.elsewhere file page hfile fun b hb hbfile hbpage => ?_⟩
      have hsame := h.single b hb tb hbound (hbfile ▸ hfile) (hbfile.trans hfileEq.symm) (hbpage.trans hpage.symm)
      exact hsame ▸ hclean
  unfold Cache.DRead
  by_cases hlast : c.holds file page c.LastBuffer = true
  · rw [if_pos hlast]
    exact hhit h.last hlast h.last (fun _ => ⟨rfl, rfl, rfl⟩) fun _ => ⟨rfl, rfl⟩
  rw [if_neg hlast]
  cases hfind : (c.phTable (pHash file)).find? (c.holds file page) with
  | some tb =>
    have hbound := (h.chain _ tb (List.mem_of_find?_eq_some hfind)).1
    exact hhit (f := fun buffer => { buffer with accesstime := c.timecounter + 1, lockers := buffer.lockers + 1 }) hbound
      (List.find?_some hfind) hbound (fun _ => ⟨rfl, rfl, rfl⟩) fun _ => ⟨rfl, rfl⟩
  | none =>
    have hmiss : ¬c.Buffered file page := by
      rintro ⟨b, hb, hholds⟩
      have hfileEq := (Cache.holds_iff.mp hholds).2
      have hchained := h.chained b hb (hfileEq ▸ hfile)
      rw [hfileEq] at hchained
      exact List.find?_eq_none.mp hfind b hchained hholds
    dsimp only
    cases hslot : c.newslot file page with
    | none =>
      refine .failed hmiss h hmiss fun _ hroom => ?_
      obtain ⟨tb, c', hsome⟩ := newslot_room file page hroom
      exact absurd (hslot.symm.trans hsome) (by simp)
    | some slot =>
      obtain ⟨tb, c₁⟩ := slot
      obtain ⟨htakes, hold, hclean⟩ := newslot_takes h hmiss hslot
      dsimp only
      have hnone : ∀ b < c.nbuffers, (c.buffers b).file = file → (c.buffers b).page = page → (c.buffers b).dirty = false :=
        fun b hb hbfile hbpage => absurd ⟨b, hb, Cache.holds_iff.mpr ⟨hbpage, hbfile⟩⟩ hmiss
      have hdisk := h.elsewhere file page hfile hnone
      cases hread : uphys_read d file (page * UBIK_PAGESIZE) UBIK_PAGESIZE with
      | some bytes =>
        refine .found (htakes.modify fun _ => ⟨rfl, rfl, rfl⟩) (fun offset hoffset => ?_) fun _ => ?_
        · rw [Cache.modify_self]
          exact (hdisk offset hoffset).symm
        · exact ⟨uphys_read_isSome.mp (by rw [hread]; rfl), hdisk⟩
      | none =>
        have hshort : ¬Whole d file page := fun hwhole => by
          have hsome := uphys_read_isSome.mpr hwhole
          rw [hread] at hsome
          exact absurd hsome (by simp)
        have hloaded := htakes.modify (f := fun buffer =>
          { buffer with
            data := fun offset => (d file).data.byte (page * UBIK_PAGESIZE + offset)
            lockers := buffer.lockers + 1 }) fun _ => ⟨rfl, rfl, rfl⟩
        refine .failed hmiss (h.drop hloaded hold (fun _ => ⟨rfl, rfl, rfl⟩) ?_) ?_ fun hwhole => absurd hwhole hshort
        · rw [Cache.modify_self]
          exact hclean
        · rintro ⟨b, hb, hholds⟩
          obtain ⟨hbpage, hbfile⟩ := Cache.holds_iff.mp hholds
          by_cases hbtb : b = tb
          · rw [hbtb, Cache.modify_self] at hbfile
            exact hfile hbfile.symm
          · rw [Cache.modify_other _ _ hbtb, hloaded.other b hbtb] at hbpage hbfile
            exact hmiss ⟨b, htakes.count ▸ hb, Cache.holds_iff.mpr ⟨hbpage, hbfile⟩⟩

end Reads

end dce.ubik.buffer
