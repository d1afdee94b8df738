import Dce.Lib.ByteFile

namespace lib

/-- One change of a file. -/
inductive FileOp where
  | write (offset : ℕ) (data : List Byte)
  | truncate (length : ℕ)

def FileOp.apply (f : ByteFile) : FileOp → ByteFile
  | .write offset data => f.write offset data
  | .truncate length => f.truncate length

def runScript (script : List FileOp) (f : ByteFile) : ByteFile := script.foldl FileOp.apply f

/-- The last that a script has done to the byte at some offset. -/
inductive Touch where
  | untouched
  | cut
  | written (byte : Byte)
  deriving DecidableEq

/-- The byte that was `old` before. -/
def Touch.value : Touch → Byte → Byte
  | .untouched, old => old
  | .cut, _ => 0
  | .written byte, _ => byte

def covers (offset : ℕ) (data : List Byte) (i : ℕ) : Prop := offset ≤ i ∧ i < offset + data.length

instance (offset : ℕ) (data : List Byte) (i : ℕ) : Decidable (covers offset data i) :=
  inferInstanceAs (Decidable (_ ∧ _))

/-- What a change does to the byte at `i`. -/
def FileOp.touch (i : ℕ) (before : Touch) : FileOp → Touch
  | .write offset data => if covers offset data i then .written (data.getD (i - offset) 0) else before
  | .truncate length => if length ≤ i then .cut else before

/-- The last that a script does to the byte at `i`. -/
def lastTouch (script : List FileOp) (i : ℕ) : Touch := script.foldl (FileOp.touch i) .untouched

/-- The byte that the script writes last at `i`, whether it is cut off later or not. -/
def lastWritten (script : List FileOp) (i : ℕ) : Option Byte :=
  script.foldl (fun before op => match op with
    | .write offset data => if covers offset data i then some (data.getD (i - offset) 0) else before
    | .truncate _ => before) none

def FileOp.extent (length : ℕ) : FileOp → ℕ
  | .write offset data => if data = [] then length else max length (offset + data.length)
  | .truncate length => length

def finalLength (script : List FileOp) (length : ℕ) : ℕ := script.foldl FileOp.extent length

variable (script : List FileOp)

theorem lastTouch_snoc (op : FileOp) (i : ℕ) :
    lastTouch (script ++ [op]) i = op.touch i (lastTouch script i) := by
  simp [lastTouch]

theorem lastWritten_snoc_write (offset : ℕ) (data : List Byte) (i : ℕ) :
    lastWritten (script ++ [.write offset data]) i =
      if covers offset data i then some (data.getD (i - offset) 0) else lastWritten script i := by
  simp [lastWritten]

theorem lastWritten_snoc_truncate (length i : ℕ) :
    lastWritten (script ++ [.truncate length]) i = lastWritten script i := by
  simp [lastWritten]

theorem finalLength_append (left right : List FileOp) (length : ℕ) :
    finalLength (left ++ right) length = finalLength right (finalLength left length) := by
  simp [finalLength]

theorem finalLength_snoc (op : FileOp) (length : ℕ) :
    finalLength (script ++ [op]) length = op.extent (finalLength script length) := by
  simp [finalLength]

def Grows (script : List FileOp) : Prop := ∀ length, FileOp.truncate length ∉ script

theorem Grows.of_snoc {script : List FileOp} {op : FileOp} (hgrows : Grows (script ++ [op])) : Grows script :=
  fun length hmem => hgrows length (List.mem_append_left _ hmem)

theorem Grows.finalLength_le_iff {script : List FileOp} (hgrows : Grows script) (length n : ℕ) :
    finalLength script length ≤ n ↔
      length ≤ n ∧ ∀ offset data, FileOp.write offset data ∈ script → data ≠ [] → offset + data.length ≤ n := by
  induction script using List.reverseRecOn with
  | nil => simp [finalLength]
  | append_singleton script op ih =>
    rw [finalLength_snoc]
    cases op with
    | truncate length => exact absurd (by simp) (hgrows length)
    | write offset data =>
      simp only [List.mem_append, List.mem_singleton, FileOp.write.injEq]
      by_cases hdata : data = []
      · rw [FileOp.extent, if_pos hdata, ih hgrows.of_snoc]
        constructor
        · rintro ⟨hlen, hends⟩
          refine ⟨hlen, fun q bytes hmem hbytes => ?_⟩
          rcases hmem with hmem | ⟨rfl, rfl⟩
          · exact hends q bytes hmem hbytes
          · exact absurd hdata hbytes
        · rintro ⟨hlen, hends⟩
          exact ⟨hlen, fun q bytes hmem hbytes => hends q bytes (Or.inl hmem) hbytes⟩
      · rw [FileOp.extent, if_neg hdata, Nat.max_le, ih hgrows.of_snoc]
        constructor
        · rintro ⟨⟨hlen, hends⟩, hend⟩
          refine ⟨hlen, fun q bytes hmem hbytes => ?_⟩
          rcases hmem with hmem | ⟨rfl, rfl⟩
          · exact hends q bytes hmem hbytes
          · exact hend
        · rintro ⟨hlen, hends⟩
          exact ⟨⟨hlen, fun q bytes hmem hbytes => hends q bytes (Or.inl hmem) hbytes⟩,
            hends offset data (Or.inr ⟨rfl, rfl⟩) hdata⟩

theorem finalLength_of_truncate {script : List FileOp} (hcuts : ¬Grows script) (n m : ℕ) :
    finalLength script n = finalLength script m := by
  induction script using List.reverseRecOn with
  | nil => exact absurd (fun _ hmem => by simp at hmem) hcuts
  | append_singleton script op ih =>
    rw [finalLength_snoc, finalLength_snoc]
    cases op with
    | truncate length => rfl
    | write offset data =>
      have hbefore : ¬Grows script := by
        intro hgrows
        refine hcuts fun length hmem => ?_
        rcases List.mem_append.mp hmem with hmem | hmem
        · exact hgrows length hmem
        · simp at hmem
      rw [ih hbefore]

theorem exists_last_truncate {script : List FileOp} (hcuts : ¬Grows script) :
    ∃ before length after, script = before ++ .truncate length :: after ∧ Grows after := by
  induction script using List.reverseRecOn with
  | nil => exact absurd (fun _ hmem => by simp at hmem) hcuts
  | append_singleton script op ih =>
    cases op with
    | truncate length => exact ⟨script, length, [], rfl, fun _ hmem => by simp at hmem⟩
    | write offset data =>
      have hbefore : ¬Grows script := by
        intro hgrows
        refine hcuts fun length hmem => ?_
        rcases List.mem_append.mp hmem with hmem | hmem
        · exact hgrows length hmem
        · simp at hmem
      obtain ⟨before, length, after, rfl, hafter⟩ := ih hbefore
      refine ⟨before, length, after ++ [.write offset data], by simp, fun k hmem => ?_⟩
      rcases List.mem_append.mp hmem with hmem | hmem
      · exact hafter k hmem
      · simp at hmem

theorem runScript_length (f : ByteFile) :
    (runScript script f).length = finalLength script f.length := by
  induction script generalizing f with
  | nil => rfl
  | cons op script ih =>
    have hhead : (op.apply f).length = op.extent f.length := by cases op <;> rfl
    exact (ih _).trans (by rw [hhead]; rfl)

theorem runScript_byte (f : ByteFile) (i : ℕ) :
    (runScript script f).byte i = (lastTouch script i).value (f.byte i) := by
  induction script using List.reverseRecOn with
  | nil => rfl
  | append_singleton script op ih =>
    rw [lastTouch_snoc]
    have hlast : runScript (script ++ [op]) f = op.apply (runScript script f) := by simp [runScript]
    rw [hlast]
    cases op with
    | write offset data =>
      by_cases hin : covers offset data i
      · simp only [FileOp.apply, FileOp.touch, if_pos hin, Touch.value]
        exact ByteFile.write_byte_inside _ _ _ hin.1 hin.2
      · simp only [FileOp.apply, FileOp.touch, if_neg hin]
        exact (ByteFile.write_byte_outside _ _ _ hin).trans ih
    | truncate length =>
      by_cases hin : length ≤ i
      · simp only [FileOp.apply, FileOp.touch, if_pos hin, Touch.value]
        exact ByteFile.truncate_byte_of_le _ hin
      · simp only [FileOp.apply, FileOp.touch, if_neg hin]
        exact (ByteFile.truncate_byte_of_lt _ (by omega)).trans ih

theorem lastWritten_of_lastTouch (i : ℕ) :
    (∀ byte, lastTouch script i = .written byte → lastWritten script i = some byte) ∧
      (lastTouch script i = .untouched → lastWritten script i = none) := by
  induction script using List.reverseRecOn with
  | nil => simp [lastTouch, lastWritten]
  | append_singleton script op ih =>
    rw [lastTouch_snoc]
    cases op with
    | write offset data =>
      rw [lastWritten_snoc_write]
      by_cases hin : covers offset data i
      · simp [FileOp.touch, hin]
      · simpa [FileOp.touch, hin] using ih
    | truncate length =>
      rw [lastWritten_snoc_truncate]
      by_cases hin : length ≤ i
      · simp [FileOp.touch, hin]
      · simpa [FileOp.touch, hin] using ih

end lib
