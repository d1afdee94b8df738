import Dce.Ubik.Phys

open lib

namespace dce.ubik

abbrev UBIK_PAGESIZE : ℕ := 1024

abbrev Page := ℕ → Byte

/-- The buffers that hold pages of the database file, and those of them that are
dirty. Pages come and go while they are clean, so any set of clean pages may be
there when a transaction starts. -/
structure Buffers where
  page : ℕ → Option Page
  dirty : List ℕ

/-- `DRead`: a buffered page, or else a whole page of the file. -/
def DRead (d : Disk) (b : Buffers) (page : ℕ) : Option Page :=
  match b.page page with
  | some data => some data
  | none =>
    (uphys_read d 0 (page * UBIK_PAGESIZE) UBIK_PAGESIZE).map fun data offset => data.getD offset 0

/-- `DNew`: a page of zeros. -/
def DNew : Page := fun _ => 0

/-- `bcopy` of some bytes into a page. -/
def bcopy (data : List Byte) (page : Page) (offset : ℕ) : Page :=
  fun i => if offset ≤ i ∧ i < offset + data.length then data.getD (i - offset) 0 else page i

/-- `DRelease` of a page that was changed. -/
def DRelease (b : Buffers) (page : ℕ) (data : Page) : Buffers where
  page := Function.update b.page page (some data)
  dirty := if page ∈ b.dirty then b.dirty else page :: b.dirty

/-- The loop of `udisk_write` that updates the buffers. A page that cannot be read
is started afresh. -/
def updatePages (d : Disk) (b : Buffers) (pos : ℕ) (data : List Byte) : Buffers :=
  if _hdone : data = [] then b
  else
    let page := pos / UBIK_PAGESIZE
    let offset := pos % UBIK_PAGESIZE
    let len := min (UBIK_PAGESIZE - offset) data.length
    let bp := (DRead d b page).getD DNew
    updatePages d (DRelease b page (bcopy (data.take len) bp offset)) (pos + len) (data.drop len)
termination_by data.length
decreasing_by
  have hpos : 0 < data.length := List.length_pos_of_ne_nil _hdone
  have hmod : pos % 1024 < 1024 := Nat.mod_lt _ (by decide)
  simp only [List.length_drop, UBIK_PAGESIZE]
  omega

def Buffers.bytes (b : Buffers) (page : ℕ) : List Byte :=
  (List.range UBIK_PAGESIZE).map ((b.page page).getD DNew)

@[simp] theorem Buffers.bytes_length (b : Buffers) (page : ℕ) : (b.bytes page).length = UBIK_PAGESIZE := by
  simp [Buffers.bytes]

def flushPage (b : Buffers) (d : Disk) (page : ℕ) : Disk :=
  uphys_write d 0 (page * UBIK_PAGESIZE) (b.bytes page)

def DFlush (b : Buffers) (d : Disk) : Disk := b.dirty.foldl (flushPage b) d

/-- `DSync`: the dirty bits are cleared. -/
def DSync (b : Buffers) : Buffers := { b with dirty := [] }

/-- `DTrunc`: pages past the end are dropped. -/
def DTrunc (b : Buffers) (length : ℕ) : Buffers :=
  { b with
    page := fun page => if (length + UBIK_PAGESIZE - 1) / UBIK_PAGESIZE ≤ page then none else b.page page }

/-- The byte at `i` of the file as a write to its page would find it. -/
def buffered (d : Disk) (b : Buffers) (i : ℕ) : Byte :=
  (DRead d b (i / UBIK_PAGESIZE)).getD DNew (i % UBIK_PAGESIZE)

def touches (pos len page : ℕ) : Prop := ∃ i, pos ≤ i ∧ i < pos + len ∧ i / UBIK_PAGESIZE = page

variable (d : Disk) {b : Buffers}

theorem DRead_DRelease (b : Buffers) (page : ℕ) (data : Page) (other : ℕ) :
    DRead d (DRelease b page data) other = if other = page then some data else DRead d b other := by
  unfold DRead DRelease
  by_cases hother : other = page
  · simp [hother]
  · simp [hother]

theorem buffered_DRelease (b : Buffers) (page : ℕ) (data : Page) (i : ℕ) :
    buffered d (DRelease b page data) i =
      if i / UBIK_PAGESIZE = page then data (i % UBIK_PAGESIZE) else buffered d b i := by
  unfold buffered
  rw [DRead_DRelease]
  split <;> rfl

theorem mem_dirty_DRelease (b : Buffers) (page : ℕ) (data : Page) (p : ℕ) :
    p ∈ (DRelease b page data).dirty ↔ p = page ∨ p ∈ b.dirty := by
  unfold DRelease
  split
  · next hmem => exact ⟨Or.inr, fun hp => hp.elim (fun heq => heq ▸ hmem) id⟩
  · exact List.mem_cons

theorem buffered_updatePages (b : Buffers) (pos : ℕ) (data : List Byte) (i : ℕ) :
    buffered d (updatePages d b pos data) i =
      if pos ≤ i ∧ i < pos + data.length then data.getD (i - pos) 0 else buffered d b i := by
  induction hn : data.length using Nat.strong_induction_on generalizing b pos data with
  | _ n ih =>
    rw [updatePages.eq_def]
    by_cases hdone : data = []
    · subst hdone
      rw [dif_pos rfl, if_neg (by simp at hn; omega)]
    · rw [dif_neg hdone]
      have hpos : 0 < data.length := List.length_pos_of_ne_nil hdone
      have hmod : pos % 1024 < 1024 := Nat.mod_lt _ (by decide)
      have hdiv := Nat.div_add_mod pos 1024
      have hidiv := Nat.div_add_mod i 1024
      have himod : i % 1024 < 1024 := Nat.mod_lt _ (by decide)
      simp only [UBIK_PAGESIZE] at ih ⊢
      obtain ⟨len, hlen⟩ : ∃ len, len = min (1024 - pos % 1024) data.length := ⟨_, rfl⟩
      rw [← hlen]
      have htake : (data.take len).length = len := by rw [List.length_take]; omega
      rw [ih (data.drop len).length (by rw [List.length_drop]; omega) _ _ _ rfl, List.length_drop, buffered_DRelease]
      by_cases hrest : pos + len ≤ i ∧ i < pos + len + (data.length - len)
      · rw [if_pos hrest, if_pos (by omega), getD_drop]
        congr 1
        omega
      · rw [if_neg hrest]
        by_cases hpage : i / 1024 = pos / 1024
        · rw [if_pos hpage]
          simp only [bcopy, htake, UBIK_PAGESIZE]
          by_cases hin : pos ≤ i ∧ i < pos + n
          · rw [if_pos (by omega), if_pos hin, getD_take_of_lt _ (by omega)]
            congr 1
            omega
          · rw [if_neg (by omega), if_neg hin]
            unfold buffered
            rw [hpage]
        · rw [if_neg hpage, if_neg]
          intro hin
          omega

theorem mem_dirty_updatePages (b : Buffers) (pos : ℕ) (data : List Byte) (p : ℕ) :
    p ∈ (updatePages d b pos data).dirty ↔ touches pos data.length p ∨ p ∈ b.dirty := by
  induction hn : data.length using Nat.strong_induction_on generalizing b pos data with
  | _ n ih =>
    rw [updatePages.eq_def]
    by_cases hdone : data = []
    · subst hdone
      rw [dif_pos rfl]
      have hnone : ¬touches pos n p := by
        rintro ⟨i, hlo, hhi, _⟩
        simp at hn
        omega
      exact (or_iff_right hnone).symm
    · rw [dif_neg hdone]
      have hpos : 0 < data.length := List.length_pos_of_ne_nil hdone
      have hmod : pos % 1024 < 1024 := Nat.mod_lt _ (by decide)
      have hdiv := Nat.div_add_mod pos 1024
      simp only [UBIK_PAGESIZE] at ih ⊢
      obtain ⟨len, hlen⟩ : ∃ len, len = min (1024 - pos % 1024) data.length := ⟨_, rfl⟩
      rw [← hlen, ih (data.drop len).length (by rw [List.length_drop]; omega) _ _ _ rfl, List.length_drop,
        mem_dirty_DRelease, ← or_assoc]
      refine or_congr_left ⟨?_, ?_⟩
      · rintro (⟨i, hlo, hhi, hp⟩ | rfl)
        · exact ⟨i, by omega, by omega, hp⟩
        · exact ⟨pos, le_rfl, by omega, rfl⟩
      · rintro ⟨i, hlo, hhi, hp⟩
        by_cases hin : pos + len ≤ i
        · exact Or.inl ⟨i, hin, by omega, hp⟩
        · simp only [UBIK_PAGESIZE] at hp
          exact Or.inr (by omega)

def Buffers.Held (b : Buffers) : Prop := ∀ p ∈ b.dirty, (b.page p).isSome

theorem Buffers.Held.DRelease (hheld : b.Held) (page : ℕ) (data : Page) :
    (DRelease b page data).Held := by
  intro p hp
  by_cases heq : p = page
  · simp [dce.ubik.DRelease, heq]
  · have hold := hheld p (((mem_dirty_DRelease b page data p).mp hp).resolve_left heq)
    simpa [dce.ubik.DRelease, heq] using hold

theorem Buffers.Held.updatePages (hheld : b.Held) (pos : ℕ) (data : List Byte) :
    (updatePages d b pos data).Held := by
  induction hn : data.length using Nat.strong_induction_on generalizing b pos data with
  | _ n ih =>
    rw [updatePages.eq_def]
    by_cases hdone : data = []
    · rwa [dif_pos hdone]
    · rw [dif_neg hdone]
      have hpos : 0 < data.length := List.length_pos_of_ne_nil hdone
      have hmod : pos % 1024 < 1024 := Nat.mod_lt _ (by decide)
      exact ih _ (by simp only [List.length_drop, UBIK_PAGESIZE]; omega) (hheld.DRelease _ _) _ _ rfl

theorem Buffers.Held.bytes_getD (hheld : b.Held) (d : Disk) {p : ℕ} (hp : p ∈ b.dirty) {i : ℕ}
    (hi : i / UBIK_PAGESIZE = p) : (b.bytes p).getD (i % UBIK_PAGESIZE) 0 = buffered d b i := by
  have himod : i % UBIK_PAGESIZE < UBIK_PAGESIZE := Nat.mod_lt _ (by decide)
  obtain ⟨data, hdata⟩ := Option.isSome_iff_exists.mp (hheld p hp)
  rw [Buffers.bytes, List.getD_eq_getElem _ _ (by simpa using himod), List.getElem_map, List.getElem_range, buffered, hi,
    DRead, hdata]

end dce.ubik
