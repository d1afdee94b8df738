import Dce.Tkm.WordSearch

namespace dce.tkm.word

structure afsFid where
  Cell : afs_hyper_t
  Volume : afs_hyper_t
  Vnode : BitVec 32
  Unique : BitVec 32
  deriving DecidableEq

def FID_ISVOL (fid : afsFid) : Bool := fid.Vnode = ~~~1 ∧ fid.Unique = 0

/-- What `tkm_GetRightsHeld` reads of a `tkm_file_t`. -/
structure tkm_file_t where
  granted : tkm_tokenList_t
  host : Option Host

/-- What it reads of a `tkm_vol_t`. -/
structure tkm_vol_t where
  granted : tkm_tokenList_t

/-- The tokens and the tables of volumes and files, where the masks of files are exact. -/
structure Tables where
  token : Ptr → tkm_internalToken_t
  vol : afs_hyper_t → afs_hyper_t → Option tkm_vol_t
  file : afsFid → Option tkm_file_t
  exact : ∀ fid fileP, file fid = some fileP → Exact token fileP.granted

/-- A loop over granted tokens that adds the types of some of them to `*rightsP`. -/
def addRights (keeps : tkm_internalToken_t → Bool) (token : Ptr → tkm_internalToken_t) : List Ptr → BitVec 32 → BitVec 32
  | [], rights => rights
  | p :: rest, rights => addRights keeps token rest (if keeps (token p) then rights ||| (token p).types else rights)

section Calls

variable (s : Tables) (hostP : Host)

/-- `tkm_VolRightsHeld`, with `*rightsP` before and after. -/
def tkm_VolRightsHeld (volP : tkm_vol_t) (rights : BitVec 32) : BitVec 32 :=
  addRights (fun t => t.host = hostP) s.token volP.granted.list rights

/-- `tkm_FileRightsHeld`: a sole holder has what the mask says, when no type there has a range, and a host that is not the
sole holder gets nothing added. -/
def tkm_FileRightsHeld (fileP : tkm_file_t) (startPos endPos : afs_hyper_t) (rights : BitVec 32) : BitVec 32 :=
  let allHeld := fileP.granted.typeSum
  if fileP.host = some hostP ∧ TKM_TYPES_WITHOUT_RANGE allHeld = allHeld then allHeld
  else if fileP.host ≠ some hostP ∧ fileP.host ≠ none then rights
  else
    addRights (fun t => t.host = hostP && TKM_BYTERANGE_IS_SUBRANGE ⟨startPos, endPos⟩ t.range) s.token
      fileP.granted.list rights

/-- `tkm_GetRightsHeld`, or nothing for `TKM_ERROR_NOENTRY`. No statement of the code gives `held` its first value. -/
def tkm_GetRightsHeld (held : BitVec 32) (fid : afsFid) (startPos endPos : afs_hyper_t) : Option afs_hyper_t :=
  if FID_ISVOL fid then
    (s.vol fid.Cell fid.Volume).map fun volP => AFS_hset64 0 (tkm_VolRightsHeld s hostP volP held)
  else
    (s.file fid).map fun fileP => AFS_hset64 0 (tkm_FileRightsHeld s hostP fileP startPos endPos held)

end Calls

/-! What is to be returned -/

/-- The host has a type by one of the granted tokens. -/
def HasByToken (s : Tables) (list : List Ptr) (holds : tkm_internalToken_t → Prop) (n : ℕ) : Prop :=
  ∃ p ∈ list, holds (s.token p) ∧ (s.token p).types.getLsbD n = true

def Covers (hostP : Host) (startPos endPos : afs_hyper_t) (t : tkm_internalToken_t) : Prop :=
  t.host = hostP ∧ (tkm_byterange_t.toByteRange ⟨startPos, endPos⟩).Inside t.range.toByteRange

/-- The types that a host has on a file for a range, or on a volume. -/
def Held (s : Tables) (hostP : Host) (fid : afsFid) (startPos endPos : afs_hyper_t) (n : ℕ) : Prop :=
  if FID_ISVOL fid then
    ∃ volP, s.vol fid.Cell fid.Volume = some volP ∧ HasByToken s volP.granted.list (fun t => t.host = hostP) n
  else ∃ fileP, s.file fid = some fileP ∧ HasByToken s fileP.granted.list (Covers hostP startPos endPos) n

/-- The rights that a call returns are those that the host has. -/
def RightsExact (s : Tables) (hostP : Host) (held : BitVec 32) (fid : afsFid) (startPos endPos : afs_hyper_t) : Prop :=
  ∀ rights, tkm_GetRightsHeld s hostP held fid startPos endPos = some rights →
    rights.h_high = 0 ∧ ∀ n, rights.h_low.getLsbD n = true ↔ Held s hostP fid startPos endPos n

/-- The first value of `held` does no harm where tokens are added to it, has to be the answer where nothing is, and does not
count for a sole holder, whose tokens all have to matter for the range. -/
def FirstValueFits (s : Tables) (hostP : Host) (held : BitVec 32) (fid : afsFid) (startPos endPos : afs_hyper_t)
    (fileP : tkm_file_t) : Prop :=
  if fileP.host = some hostP ∧ TKM_TYPES_WITHOUT_RANGE fileP.granted.typeSum = fileP.granted.typeSum then
    ∀ p ∈ fileP.granted.list, ∀ n, (s.token p).types.getLsbD n = true → Held s hostP fid startPos endPos n
  else if fileP.host ≠ some hostP ∧ fileP.host ≠ none then
    ∀ n, held.getLsbD n = true ↔ Held s hostP fid startPos endPos n
  else ∀ n, held.getLsbD n = true → Held s hostP fid startPos endPos n

/-- The condition of a call, on a volume or on a file. -/
def CallFits (s : Tables) (hostP : Host) (held : BitVec 32) (fid : afsFid) (startPos endPos : afs_hyper_t) : Prop :=
  if FID_ISVOL fid then
    ∀ volP, s.vol fid.Cell fid.Volume = some volP → ∀ n, held.getLsbD n = true → Held s hostP fid startPos endPos n
  else ∀ fileP, s.file fid = some fileP → FirstValueFits s hostP held fid startPos endPos fileP

variable {s : Tables} {hostP : Host} {held : BitVec 32} {fid : afsFid} {startPos endPos : afs_hyper_t}

theorem addRights_bit {keeps : tkm_internalToken_t → Bool} {list : List Ptr} {rights : BitVec 32} {n : ℕ} :
    (addRights keeps s.token list rights).getLsbD n = true ↔
      rights.getLsbD n = true ∨ HasByToken s list (fun t => keeps t = true) n := by
  induction list generalizing rights with
  | nil => simp [addRights, HasByToken]
  | cons p rest ih =>
    have hcons : HasByToken s (p :: rest) (fun t => keeps t = true) n ↔
        (keeps (s.token p) = true ∧ (s.token p).types.getLsbD n = true) ∨ HasByToken s rest (fun t => keeps t = true) n := by
      rw [HasByToken, List.exists_mem_cons_iff]
      rfl
    rw [addRights, ih, hcons]
    by_cases hkeeps : keeps (s.token p) = true
    · rw [if_pos hkeeps, BitVec.getLsbD_or, Bool.or_eq_true, and_iff_right hkeeps, or_assoc]
    · rw [if_neg hkeeps, iff_false_intro (fun h : _ ∧ _ => hkeeps h.1), false_or]

theorem isSubrange_iff (sub range : tkm_byterange_t) :
    TKM_BYTERANGE_IS_SUBRANGE sub range = true ↔ sub.toByteRange.Inside range.toByteRange := by
  rw [isSubrange_toByteRange]
  exact decide_eq_true_iff

theorem added_iff {P Q : ℕ → Prop} : (∀ n, P n ∨ Q n ↔ Q n) ↔ ∀ n, P n → Q n :=
  forall_congr' fun _ => or_iff_right_iff_imp

theorem volRightsHeld_iff {volP : tkm_vol_t} (held : BitVec 32) (startPos endPos : afs_hyper_t)
    (hvol : FID_ISVOL fid = true) (hfound : s.vol fid.Cell fid.Volume = some volP) :
    (∀ n, (tkm_VolRightsHeld s hostP volP held).getLsbD n = true ↔ Held s hostP fid startPos endPos n) ↔
      ∀ n, held.getLsbD n = true → Held s hostP fid startPos endPos n := by
  have hheld (n : ℕ) : HasByToken s volP.granted.list (fun t => decide (t.host = hostP) = true) n ↔
      Held s hostP fid startPos endPos n := by
    rw [Held, if_pos hvol, hfound]
    simp
  rw [← added_iff]
  refine forall_congr' fun n => ?_
  rw [tkm_VolRightsHeld, addRights_bit, hheld]

theorem fileRightsHeld_iff {fileP : tkm_file_t} (held : BitVec 32) (startPos endPos : afs_hyper_t)
    (hfile : FID_ISVOL fid = false) (hfound : s.file fid = some fileP) :
    (∀ n, (tkm_FileRightsHeld s hostP fileP startPos endPos held).getLsbD n = true ↔ Held s hostP fid startPos endPos n) ↔
      FirstValueFits s hostP held fid startPos endPos fileP := by
  have hheld (n : ℕ) : HasByToken s fileP.granted.list (fun t =>
      (decide (t.host = hostP) && TKM_BYTERANGE_IS_SUBRANGE ⟨startPos, endPos⟩ t.range) = true) n ↔
        Held s hostP fid startPos endPos n := by
    rw [Held, if_neg (by simp [hfile]), hfound]
    simp [HasByToken, Covers, isSubrange_iff]
  have hmask := s.exact fid fileP hfound
  rw [tkm_FileRightsHeld, FirstValueFits]
  split_ifs with hsole hother
  · constructor
    · intro hall p hp n hbit
      exact (hall n).mp ((hmask n).mpr ⟨p, hp, hbit⟩)
    · intro hall n
      rw [hmask n]
      constructor
      · rintro ⟨p, hp, hbit⟩
        exact hall p hp n hbit
      · intro hn
        obtain ⟨p, hp, -, hbit⟩ := (hheld n).mpr hn
        exact ⟨p, hp, hbit⟩
  · rfl
  · rw [← added_iff]
    refine forall_congr' fun n => ?_
    rw [addRights_bit, hheld]

private def oneHolder : Tables where
  token _ := ⟨0x800, ⟨⟨0, 0⟩, ⟨0, 0⟩⟩, 1, 0, by decide⟩
  vol _ _ := none
  file _ := some ⟨⟨0x800, [0]⟩, some 1⟩
  exact fid fileP hfile n := by
    obtain rfl := Option.some.inj hfile
    simp

end dce.tkm.word
