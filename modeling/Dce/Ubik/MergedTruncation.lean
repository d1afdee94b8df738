import Dce.Ubik.Transaction

open lib

namespace dce.ubik

/-- A write of the script ends at `n` or behind it. -/
def EndsBeyond (script : List FileOp) (n : ℕ) : Prop :=
  ∃ offset data, FileOp.write offset data ∈ script ∧ n ≤ offset + data.length

/-- No truncation of the script is left undercut: every truncation to less than `n`
is followed by a write that ends at `n` or behind it. -/
def NotUndercut (script : List FileOp) (n : ℕ) : Prop :=
  ∀ early length late, script = early ++ .truncate length :: late → length < n → EndsBeyond late n

theorem mergedTruncation_append (entry : Option ℕ) (left right : List FileOp) :
    mergedTruncation entry (left ++ right) = mergedTruncation (mergedTruncation entry left) right := by
  simp [mergedTruncation]

theorem mergedTruncation_none_of_grows {script : List FileOp} (hgrows : Grows script) :
    mergedTruncation none script = none := by
  induction script with
  | nil => rfl
  | cons op script ih =>
    cases op with
    | truncate length => exact absurd (List.mem_cons_self ..) (hgrows length)
    | write offset data => exact ih fun length hmem => hgrows length (List.mem_cons_of_mem _ hmem)

theorem mergedTruncation_some_of_grows {script : List FileOp} (hgrows : Grows script) (entry : ℕ) :
    ∃ merged, mergedTruncation (some entry) script = some merged ∧
      ∀ n, merged ≤ n ↔ entry ≤ n ∧ ∀ offset data, FileOp.write offset data ∈ script → offset + data.length ≤ n := by
  induction script generalizing entry with
  | nil => exact ⟨entry, rfl, by simp⟩
  | cons op script ih =>
    cases op with
    | truncate length => exact absurd (List.mem_cons_self ..) (hgrows length)
    | write offset data =>
      have hrest : Grows script := fun length hmem => hgrows length (List.mem_cons_of_mem _ hmem)
      obtain ⟨merged, hmerged, hle⟩ := ih hrest (max entry (offset + data.length))
      refine ⟨merged, ?_, fun n => ?_⟩
      · rw [← hmerged]
        simp only [mergedTruncation, List.foldl_cons, Option.map_some]
        congr 2
        split <;> omega
      · rw [hle n, Nat.max_le]
        simp only [List.mem_cons, FileOp.write.injEq]
        constructor
        · rintro ⟨⟨hentry, hend⟩, hends⟩
          refine ⟨hentry, fun q bytes hmem => ?_⟩
          rcases hmem with ⟨rfl, rfl⟩ | hmem
          · exact hend
          · exact hends q bytes hmem
        · rintro ⟨hentry, hends⟩
          exact ⟨⟨hentry, hends offset data (Or.inl ⟨rfl, rfl⟩)⟩, fun q bytes hmem => hends q bytes (Or.inr hmem)⟩

theorem notUndercut_snoc_write (script : List FileOp) (offset : ℕ) (data : List Byte) (n : ℕ) :
    NotUndercut (script ++ [.write offset data]) n ↔ n ≤ offset + data.length ∨ NotUndercut script n := by
  constructor
  · intro hall
    by_cases hend : n ≤ offset + data.length
    · exact Or.inl hend
    · refine Or.inr fun early length late hsplit hlt => ?_
      obtain ⟨q, bytes, hmem, hle⟩ := hall early length (late ++ [.write offset data]) (by simp [hsplit]) hlt
      rcases List.mem_append.mp hmem with hmem | hmem
      · exact ⟨q, bytes, hmem, hle⟩
      · obtain ⟨rfl, rfl⟩ : q = offset ∧ bytes = data := by simpa using hmem
        exact absurd hle hend
  · intro hor early length late hsplit hlt
    rcases List.eq_nil_or_concat late with rfl | ⟨rest, op, rfl⟩
    · have hlast := (List.append_inj' hsplit rfl).2
      simp at hlast
    · have hparts : script = early ++ .truncate length :: rest ∧ FileOp.write offset data = op := by
        have hassoc : script ++ [FileOp.write offset data] = (early ++ .truncate length :: rest) ++ [op] := by
          rw [hsplit]
          simp
        obtain ⟨hleft, hright⟩ := List.append_inj' hassoc rfl
        exact ⟨hleft, by simpa using hright⟩
      obtain ⟨hscript, rfl⟩ := hparts
      rcases hor with hend | hbefore
      · exact ⟨offset, data, by simp, hend⟩
      · obtain ⟨q, bytes, hmem, hle⟩ := hbefore early length rest hscript hlt
        exact ⟨q, bytes, by simp [hmem], hle⟩

theorem notUndercut_snoc_truncate (script : List FileOp) (length n : ℕ) :
    NotUndercut (script ++ [.truncate length]) n ↔ n ≤ length ∧ NotUndercut script n := by
  have hnone : ¬EndsBeyond [] n := fun ⟨_, _, hmem, _⟩ => by simp at hmem
  constructor
  · intro hall
    refine ⟨?_, fun early k late hsplit hlt => ?_⟩
    · by_contra hlt
      exact hnone (hall script length [] rfl (by omega))
    · obtain ⟨q, bytes, hmem, hle⟩ := hall early k (late ++ [.truncate length]) (by simp [hsplit]) hlt
      exact ⟨q, bytes, by simpa using hmem, hle⟩
  · rintro ⟨hle, hbefore⟩ early k late hsplit hlt
    rcases List.eq_nil_or_concat late with rfl | ⟨rest, op, rfl⟩
    · obtain ⟨_, hlast⟩ := List.append_inj' hsplit rfl
      obtain rfl : length = k := by simpa using hlast
      omega
    · have hassoc : script ++ [FileOp.truncate length] = (early ++ .truncate k :: rest) ++ [op] := by
        rw [hsplit]
        simp
      obtain ⟨q, bytes, hmem, hend⟩ := hbefore early k rest (List.append_inj' hassoc rfl).1 hlt
      exact ⟨q, bytes, by simp [hmem], hend⟩

theorem le_mergedTruncation_iff (script : List FileOp) (n : ℕ) :
    (∀ merged, mergedTruncation none script = some merged → n ≤ merged) ↔ NotUndercut script n := by
  induction script using List.reverseRecOn with
  | nil => simp [mergedTruncation, NotUndercut]
  | append_singleton script op ih =>
    rw [mergedTruncation_append]
    cases op with
    | write offset data =>
      rw [notUndercut_snoc_write, ← ih]
      cases hentry : mergedTruncation none script with
      | none => simp [mergedTruncation]
      | some old =>
        simp only [mergedTruncation, List.foldl_cons, List.foldl_nil, Option.map_some, Option.some.injEq,
          forall_eq']
        split <;> omega
    | truncate length =>
      rw [notUndercut_snoc_truncate, ← ih]
      cases hentry : mergedTruncation none script with
      | none => simp [mergedTruncation]
      | some old =>
        simp only [mergedTruncation, List.foldl_cons, List.foldl_nil]
        split <;> simp only [Option.some.injEq, forall_eq'] <;> omega

/-- `n` rounded up to a whole page. -/
def roundUp (n : ℕ) : ℕ := (n + (UBIK_PAGESIZE - 1)) / UBIK_PAGESIZE * UBIK_PAGESIZE

/-- The length that the updates leave one by one is the length that whole pages and
one merged truncation leave. Without a truncation, the pages written end within
it. Otherwise no empty write behind the last truncation lies past it, and the last
truncation is reached again by a later write or undercut by no earlier one. -/
structure LengthAgrees (script : List FileOp) (length : ℕ) : Prop where
  pages : Grows script → ∀ offset data, FileOp.write offset data ∈ script → data ≠ [] →
    roundUp (offset + data.length) ≤ finalLength script length
  truncation : ∀ before last after, script = before ++ .truncate last :: after → Grows after →
    (∀ offset, FileOp.write offset [] ∈ after → offset ≤ finalLength script length) ∧
      (EndsBeyond after last ∨ NotUndercut before last)

/-- The length that whole pages and the merged truncation leave. -/
def pagedLength (script : List FileOp) (flushed : ℕ) : ℕ := (mergedTruncation none script).getD flushed

theorem roundUp_le_iff {n m : ℕ} (hn : 0 < n) : roundUp n ≤ m ↔ ((n - 1) / UBIK_PAGESIZE + 1) * UBIK_PAGESIZE ≤ m := by
  have hpages : (n + (UBIK_PAGESIZE - 1)) / UBIK_PAGESIZE = (n - 1) / UBIK_PAGESIZE + 1 := by
    simp only [UBIK_PAGESIZE]
    omega
  rw [roundUp, hpages]

theorem touches_le_roundUp {offset len page : ℕ} (htouch : touches offset len page) :
    (page + 1) * UBIK_PAGESIZE ≤ roundUp (offset + len) := by
  obtain ⟨i, hlo, hhi, rfl⟩ := htouch
  simp only [roundUp, UBIK_PAGESIZE]
  omega

theorem touches_last {offset len : ℕ} (hlen : 0 < len) : touches offset len ((offset + len - 1) / UBIK_PAGESIZE) :=
  ⟨offset + len - 1, by omega, by omega, rfl⟩

section

variable {script : List FileOp} {length flushed : ℕ}
  (hflushed : ∀ n, flushed ≤ n ↔ length ≤ n ∧ ∀ page, (∃ offset data, FileOp.write offset data ∈ script ∧
    touches offset data.length page) → (page + 1) * UBIK_PAGESIZE ≤ n)

include hflushed

theorem pagedLength_of_grows (hgrows : Grows script) :
    finalLength script length = pagedLength script flushed ↔
      ∀ offset data, FileOp.write offset data ∈ script → data ≠ [] →
        roundUp (offset + data.length) ≤ finalLength script length := by
  rw [pagedLength, mergedTruncation_none_of_grows hgrows, Option.getD_none]
  have hfinal := hgrows.finalLength_le_iff length
  have hle : finalLength script length ≤ flushed := by
    refine (hfinal flushed).mpr ⟨((hflushed flushed).mp le_rfl).1, fun offset data hmem hdata => ?_⟩
    have hpos := List.length_pos_of_ne_nil hdata
    have hpage := ((hflushed flushed).mp le_rfl).2 _ ⟨offset, data, hmem, touches_last hpos⟩
    simp only [UBIK_PAGESIZE] at hpage
    omega
  constructor
  · intro heq offset data hmem hdata
    have hpos := List.length_pos_of_ne_nil hdata
    rw [roundUp_le_iff (by omega), heq]
    exact ((hflushed flushed).mp le_rfl).2 _ ⟨offset, data, hmem, touches_last hpos⟩
  · intro hpages
    refine le_antisymm hle ((hflushed _).mpr ⟨((hfinal _).mp le_rfl).1, ?_⟩)
    rintro page ⟨offset, data, hmem, htouch⟩
    have hdata : data ≠ [] := by
      rintro rfl
      obtain ⟨i, hlo, hhi, _⟩ := htouch
      simp at hhi
      omega
    exact (touches_le_roundUp htouch).trans (hpages offset data hmem hdata)

omit hflushed in
theorem pagedLength_of_truncate {before : List FileOp} {last : ℕ} {after : List FileOp}
    (hsplit : script = before ++ .truncate last :: after) (hafter : Grows after) :
    finalLength script length = pagedLength script flushed ↔
      (∀ offset, FileOp.write offset [] ∈ after → offset ≤ finalLength script length) ∧
        (EndsBeyond after last ∨ NotUndercut before last) := by
  have hfinal : finalLength script length = finalLength after last := by
    rw [hsplit, finalLength_append]
    rfl
  obtain ⟨entry, hentry, hentryle, hreach⟩ : ∃ entry, mergedTruncation none (before ++ [.truncate last]) = some entry ∧
      entry ≤ last ∧ (last ≤ entry ↔ NotUndercut before last) := by
    rw [← le_mergedTruncation_iff, mergedTruncation_append]
    cases hbefore : mergedTruncation none before with
    | none => exact ⟨last, rfl, le_rfl, by simp⟩
    | some old =>
      by_cases hlt : old > last
      · exact ⟨last, by simp [mergedTruncation, hlt], le_rfl, by simp; omega⟩
      · exact ⟨old, by simp [mergedTruncation, hlt], by omega, by simp⟩
  obtain ⟨merged, hmerged, hmergedle⟩ := mergedTruncation_some_of_grows hafter entry
  have hpaged : pagedLength script flushed = merged := by
    rw [pagedLength, hsplit, List.append_cons, mergedTruncation_append, hentry, hmerged, Option.getD_some]
  have hafterle := hafter.finalLength_le_iff last
  have hends : ∀ offset data, FileOp.write offset data ∈ after → data ≠ [] → offset + data.length ≤ finalLength after last :=
    ((hafterle _).mp le_rfl).2
  have hlast : last ≤ finalLength after last := ((hafterle _).mp le_rfl).1
  rw [hpaged, hfinal]
  have hup : merged ≤ finalLength after last ↔
      ∀ offset, FileOp.write offset [] ∈ after → offset ≤ finalLength after last := by
    rw [hmergedle]
    constructor
    · rintro ⟨_, hall⟩ offset hmem
      simpa using hall offset [] hmem
    · intro hempty
      refine ⟨hentryle.trans hlast, fun offset data hmem => ?_⟩
      by_cases hdata : data = []
      · subst hdata
        simpa using hempty offset hmem
      · exact hends offset data hmem hdata
  have hdown : finalLength after last ≤ merged ↔ EndsBeyond after last ∨ NotUndercut before last := by
    have hmergedends := ((hmergedle merged).mp le_rfl).2
    rw [hafterle, ← hreach]
    constructor
    · rintro ⟨hle, _⟩
      by_contra hnot
      simp only [not_or, not_le] at hnot
      obtain ⟨hnone, hlt⟩ := hnot
      have hshort : merged ≤ last - 1 := (hmergedle _).mpr ⟨by omega, fun offset data hmem => by
        by_contra hge
        exact hnone ⟨offset, data, hmem, by omega⟩⟩
      omega
    · rintro (⟨offset, data, hmem, hle⟩ | hle)
      · exact ⟨hle.trans (hmergedends offset data hmem), fun q bytes hq _ => hmergedends q bytes hq⟩
      · exact ⟨hle.trans ((hmergedle merged).mp le_rfl).1, fun q bytes hq _ => hmergedends q bytes hq⟩
  rw [← hup, ← hdown]
  exact le_antisymm_iff.trans and_comm

theorem lengthAgrees_iff :
    finalLength script length = pagedLength script flushed ↔ LengthAgrees script length := by
  by_cases hgrows : Grows script
  · rw [pagedLength_of_grows hflushed hgrows]
    refine ⟨fun hpages => ⟨fun _ => hpages, fun before last after hsplit _ => ?_⟩, fun hlen => hlen.pages hgrows⟩
    exact absurd (by rw [hsplit]; simp) (hgrows last)
  · obtain ⟨before, last, after, hsplit, hafter⟩ := exists_last_truncate hgrows
    refine ⟨fun heq => ⟨fun h => absurd h hgrows, fun before last after hsplit hafter => ?_⟩, fun hlen => ?_⟩
    · exact (pagedLength_of_truncate hsplit hafter).mp heq
    · exact (pagedLength_of_truncate hsplit hafter).mpr (hlen.truncation before last after hsplit hafter)

end

end dce.ubik
