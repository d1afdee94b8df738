import Dce.Lib.Memory

open lib

namespace dce.cds.names

def SIMPLENAMEMAX : ℕ := 255

def SN_null : Byte := 0
def SN_normal : Byte := 1
def SN_binary : Byte := 3
def SN_wildcard : Byte := 4
def SN_typed : Byte := 6
def SN_objectid : Byte := 7
def SN_cds : Byte := 8
def SN_cdswildcard : Byte := 9

structure SimpleName_t where
  sn_flag : Byte
  sn_name : List Byte
  counted : sn_name.length ≤ SIMPLENAMEMAX

def SimpleName_t.sn_length (sname : SimpleName_t) : ℕ := sname.sn_name.length

def SimpleName_t.image (sname : SimpleName_t) : List Byte := sname.sn_flag :: BitVec.ofNat 8 sname.sn_length :: sname.sn_name

def NullSimpleName : List Byte := [0, 0]

/-- The simple names of a full name, one behind the other. -/
def imageOf (snames : List SimpleName_t) : List Byte := snames.flatMap (·.image)

/-- `FullName_t`. The null name at its end may be missing from an empty name. -/
structure FullName_t where
  fn_root : List Byte
  snames : List SimpleName_t
  ended : Bool
  root_length : fn_root.length = 16
  flags : ∀ sname ∈ snames, sname.sn_flag ≠ SN_null
  only_empty : snames ≠ [] → ended = true
  fits : (imageOf snames).length + NullSimpleName.length < 2 ^ 16

/-- The bytes of `fn_name`. -/
def FullName_t.fn_name (fname : FullName_t) : List Byte := imageOf fname.snames ++ if fname.ended then NullSimpleName else []

variable (order : ByteOrder)

/-- A root, a length and the bytes that it counts. -/
def headed (fn_root fn_name : List Byte) : List Byte := fn_root ++ (order.store 2 fn_name.length ++ fn_name)

def FullName_t.image (fname : FullName_t) : List Byte := headed order fname.fn_root fname.fn_name

section code

variable (m : Memory)

def EXT8 (p : ℕ) : ℕ := (m p).toNat

def EXT16 (p : ℕ) : ℕ := order.load (m.read p 2)

/-- `INS16`, which keeps the two lowest bytes of an `int`. -/
def INS16 (p : ℕ) (v : ℤ) : Memory := m.write p (order.store 2 (v % 2 ^ 16).toNat)

def LEN_SimpleName (p : ℕ) : ℕ := 2 + EXT8 m (p + 1)

def SKIP_SimpleName (p : ℕ) : ℕ := p + 2 + EXT8 m (p + 1)

def COPY_SimpleName (source target : ℕ) : Memory := m.move source target (LEN_SimpleName m source)

/-- The offset of `fn_length`. -/
def fn_length (p : ℕ) : ℕ := p + 16

/-- The offset of `fn_name`. -/
def fn_name (p : ℕ) : ℕ := p + 18

def LEN_FullName (p : ℕ) : ℕ := 18 + EXT16 order m (fn_length p)

def SKIP_FullName (p : ℕ) : ℕ := fn_name p + EXT16 order m (fn_length p)

def COPY_FullName (source target : ℕ) : Memory := m.move source target (LEN_FullName order m source)

def EMPTY_FullName (p : ℕ) : Prop := EXT16 order m (fn_length p) ≤ 2

instance (p : ℕ) : Decidable (EMPTY_FullName order m p) := inferInstanceAs (Decidable (_ ≤ _))

/-- The loop of `names_pointlast`, for a number of rounds. -/
def pointlast : ℕ → ℕ → Option ℕ
  | 0, _ => none
  | rounds + 1, previous_p =>
    let current_p := SKIP_SimpleName m previous_p
    if m current_p = SN_null then some previous_p else pointlast rounds current_p

/-- `names_pointlast`. It ends with nothing where there is no null name within the length of the full name. -/
def names_pointlast (fname_p : ℕ) : Option ℕ :=
  if ¬ EMPTY_FullName order m fname_p then pointlast m (EXT16 order m (fn_length fname_p)) (fn_name fname_p)
  else some (fn_name fname_p)

def names_stripright (fname_p parent_p : ℕ) : Option Memory :=
  let m := COPY_FullName order m fname_p parent_p
  if ¬ EMPTY_FullName order m parent_p then do
    let last_p ← names_pointlast order m parent_p
    let m := INS16 order m (fn_length parent_p) (EXT16 order m (fn_length parent_p) - LEN_SimpleName m last_p)
    return m.write last_p NullSimpleName
  else some m

/-- The null name at the end of a full name, of the given length, is taken off this, if there is one. -/
def removeNull (fname_p : ℕ) (len : ℤ) : Memory × ℤ :=
  if 0 < len then
    let len := len - NullSimpleName.length
    (INS16 order m (fn_length fname_p) len, len)
  else (m, len)

def names_append (sname_p fname_p : ℕ) : Memory :=
  let (m, fnameLen) := removeNull order m fname_p (EXT16 order m (fn_length fname_p))
  let next_p := SKIP_FullName order m fname_p
  let m := COPY_SimpleName m sname_p next_p
  let m := m.write (SKIP_SimpleName m next_p) NullSimpleName
  INS16 order m (fn_length fname_p) (fnameLen + LEN_SimpleName m sname_p + NullSimpleName.length)

/-- The unresolved name without its first simple name: a smaller length, and what is left moved down. -/
def shiftUnresolved (unresolved_p snameLen : ℕ) : Memory :=
  let sname_p := fn_name unresolved_p
  let unresolvedLen : ℤ := EXT16 order m (fn_length unresolved_p) - snameLen
  let m := INS16 order m (fn_length unresolved_p) unresolvedLen
  m.move (SKIP_SimpleName m sname_p) (fn_name unresolved_p) unresolvedLen.toNat

/-- A simple name and a null name behind a resolved name of the given length. -/
def appendResolved (resolved_p : ℕ) (resolvedLen : ℤ) (sname : List Byte) : Memory :=
  let sname_p := SKIP_FullName order m resolved_p
  let m := m.write sname_p sname
  let m := m.write (sname_p + sname.length) NullSimpleName
  INS16 order m (fn_length resolved_p) (resolvedLen + sname.length + NullSimpleName.length)

/-- `names_swap`: the memory, and the pointer to the resolved name. -/
def names_swap (unresolved_p : ℕ) : Memory × ℕ :=
  let resolved_p := SKIP_FullName order m unresolved_p
  let sname_p := fn_name unresolved_p
  if EMPTY_FullName order m unresolved_p then (m, resolved_p)
  else
    let resolvedLen : ℤ := EXT16 order m (fn_length resolved_p)
    let snameLen := LEN_SimpleName m sname_p
    -- the new resolved simple name in a safe place
    let sname := m.read sname_p snameLen
    let m := shiftUnresolved order m unresolved_p snameLen
    let (m, resolvedLen) := removeNull order m resolved_p resolvedLen
    let m := m.move resolved_p (SKIP_FullName order m unresolved_p) (LEN_FullName order m resolved_p)
    let resolved_p := SKIP_FullName order m unresolved_p
    (appendResolved order m resolved_p resolvedLen sname, resolved_p)

end code

variable {order} {m : Memory} {p : ℕ}

@[simp]
theorem SimpleName_t.length_image (sname : SimpleName_t) : sname.image.length = 2 + sname.sn_length := by
  simp [image, sn_length]
  omega

@[simp] theorem imageOf_nil : imageOf [] = [] := rfl

@[simp]
theorem imageOf_cons (sname : SimpleName_t) (snames : List SimpleName_t) : imageOf (sname :: snames) = sname.image ++ imageOf snames :=
  rfl

@[simp]
theorem imageOf_append (snames snames' : List SimpleName_t) : imageOf (snames ++ snames') = imageOf snames ++ imageOf snames' :=
  List.flatMap_append

variable {sname : SimpleName_t}

theorem EXT8_of_holds (h : m.Holds p sname.image) : EXT8 m (p + 1) = sname.sn_length := by
  have hbyte : m (p + 1) = BitVec.ofNat 8 sname.sn_length := h.get (k := 1) (by rw [SimpleName_t.length_image]; omega)
  have hcounted : sname.sn_length ≤ 255 := sname.counted
  rw [EXT8, hbyte, BitVec.toNat_ofNat]
  omega

theorem LEN_SimpleName_of_holds (h : m.Holds p sname.image) : LEN_SimpleName m p = sname.image.length := by
  rw [LEN_SimpleName, EXT8_of_holds h, SimpleName_t.length_image]

theorem SKIP_SimpleName_of_holds (h : m.Holds p sname.image) :
    SKIP_SimpleName m p = p + sname.image.length := by
  rw [SKIP_SimpleName, EXT8_of_holds h, SimpleName_t.length_image]
  omega

section headed

variable {fn_root left : List Byte} (hroot : fn_root.length = 16)
include hroot

theorem length_headed (body : List Byte) : (headed order fn_root body).length = 18 + body.length := by
  simp [headed, hroot]
  omega

variable {body : List Byte}

theorem holds_headed_iff : m.Holds p (headed order fn_root body) ↔
    m.Holds p fn_root ∧ m.Holds (fn_length p) (order.store 2 body.length) ∧ m.Holds (fn_name p) body := by
  rw [headed, Memory.holds_append_iff, Memory.holds_append_iff, hroot, ByteOrder.length_store]
  rfl

theorem EXT16_of_holds (h : m.Holds p (headed order fn_root body)) (hshort : body.length < 2 ^ 16) :
    EXT16 order m (fn_length p) = body.length := by
  have hlength := ((holds_headed_iff hroot).mp h).2.1
  rw [Memory.Holds, ByteOrder.length_store] at hlength
  rw [EXT16, hlength, ByteOrder.load_store]
  exact Nat.mod_eq_of_lt hshort

theorem INS16_holds (h : m.Holds p fn_root) (hbody : m.Holds (fn_name p) body) {v : ℤ}
    (hv : v = body.length) (hshort : body.length < 2 ^ 16) :
    (INS16 order m (fn_length p) v).Holds p (headed order fn_root body) := by
  have hstored : (v % 2 ^ 16).toNat = body.length := by omega
  rw [holds_headed_iff hroot, INS16, hstored]
  refine ⟨h.write (.inl ?_), Memory.holds_write .., hbody.write (.inr ?_)⟩
  · rw [hroot]
    exact le_rfl
  · rw [ByteOrder.length_store]
    exact le_rfl

end headed

theorem INS16_outside {a : ℕ} {v : ℤ} (ha : a < p ∨ p + 2 ≤ a) : INS16 order m p v a = m a :=
  m.write_outside (by rw [ByteOrder.length_store]; exact ha)

theorem removeNull_holds {fn_root left : List Byte} {ended : Bool} {len : ℤ} (hroot : fn_root.length = 16)
    (hended : left ≠ [] → ended = true) (hshort : left.length + NullSimpleName.length < 2 ^ 16)
    (h : m.Holds p (headed order fn_root (left ++ if ended then NullSimpleName else [])))
    (hlen : len = (left ++ if ended then NullSimpleName else []).length) :
    (removeNull order m p len).1.Holds p (headed order fn_root left) ∧ (removeNull order m p len).2 = left.length ∧
      ∀ a, a < p ∨ p + 18 ≤ a → (removeNull order m p len).1 a = m a := by
  have hall := (holds_headed_iff hroot).mp h
  cases ended with
  | true =>
    rw [if_pos rfl, List.length_append] at hlen
    rw [if_pos rfl] at hall
    have hpos : 0 < len := by
      rw [hlen]
      simp [NullSimpleName]
      omega
    rw [removeNull, if_pos hpos]
    refine ⟨INS16_holds hroot hall.1 (Memory.holds_append_iff.mp hall.2.2).1 (by omega) (by omega), by dsimp only; omega, ?_⟩
    intro a ha
    exact INS16_outside (by unfold fn_length; omega)
  | false =>
    obtain rfl : left = [] := by
      by_contra hne
      exact absurd (hended hne) (by decide)
    obtain rfl : len = 0 := hlen
    exact ⟨h, rfl, fun a _ => rfl⟩

theorem SKIP_FullName_of_holds {fn_root body : List Byte} (hroot : fn_root.length = 16)
    (h : m.Holds p (headed order fn_root body)) (hshort : body.length < 2 ^ 16) :
    SKIP_FullName order m p = p + (18 + body.length) := by
  rw [SKIP_FullName, EXT16_of_holds hroot h hshort, fn_name]
  omega

theorem shiftUnresolved_holds {fn_root rest : List Byte} (hroot : fn_root.length = 16)
    (hshort : (sname.image ++ rest).length < 2 ^ 16) (h : m.Holds p (headed order fn_root (sname.image ++ rest))) :
    (shiftUnresolved order m p sname.image.length).Holds p (headed order fn_root rest) ∧
      ∀ a, a < p ∨ p + (18 + rest.length) ≤ a → shiftUnresolved order m p sname.image.length a = m a := by
  obtain ⟨hfirst, -, hbody⟩ := (holds_headed_iff hroot).mp h
  have hlen := EXT16_of_holds hroot h hshort
  obtain ⟨hsname, hrest⟩ := Memory.holds_append_iff.mp hbody
  have hv : ((EXT16 order m (fn_length p) : ℕ) : ℤ) - (sname.image.length : ℕ) = rest.length := by
    rw [hlen, List.length_append]
    omega
  have hsize : (rest.length : ℤ).toNat = rest.length := rfl
  rw [List.length_append] at hshort
  rw [shiftUnresolved, hv, hsize]
  -- the simple names are not where the length is
  have hkept : ∀ a, fn_name p ≤ a → INS16 order m (fn_length p) rest.length a = m a := by
    intro a ha
    exact INS16_outside (.inr (by unfold fn_name at ha; unfold fn_length; omega))
  have hkept' : ∀ o bytes, fn_name p ≤ o → m.Holds o bytes → (INS16 order m (fn_length p) rest.length).Holds o bytes := by
    intro o bytes ho hholds
    exact hholds.congr fun k _ => hkept (o + k) (by omega)
  have hskip := SKIP_SimpleName_of_holds (hkept' _ _ le_rfl hsname)
  rw [hskip]
  constructor
  · rw [holds_headed_iff hroot]
    refine ⟨Memory.Holds.move (hfirst.write (.inl ?_)) (.inl ?_), Memory.Holds.move ?_ (.inl ?_), ?_⟩
    · rw [hroot]
      exact le_rfl
    · rw [hroot]
      unfold fn_name
      omega
    · have hstored : ((rest.length : ℤ) % 2 ^ 16).toNat = rest.length := by omega
      rw [INS16, hstored]
      exact Memory.holds_write ..
    · rw [ByteOrder.length_store]
      exact le_rfl
    · have hmoved := hkept' _ _ (by omega) hrest
      exact hmoved.moved (k := 0) (fn_name p) rest.length (by omega)
  · intro a ha
    rw [Memory.move_outside _ (by unfold fn_name; omega)]
    exact INS16_outside (by unfold fn_length; omega)

theorem appendResolved_holds {fn_root left : List Byte} {len : ℤ} (sname : List Byte) (hroot : fn_root.length = 16)
    (hshort : (left ++ (sname ++ NullSimpleName)).length < 2 ^ 16) (h : m.Holds p (headed order fn_root left))
    (hlen : len = left.length) :
    (appendResolved order m p len sname).Holds p (headed order fn_root (left ++ (sname ++ NullSimpleName))) ∧
      ∀ a, a < p ∨ p + (18 + (left ++ (sname ++ NullSimpleName)).length) ≤ a →
        appendResolved order m p len sname a = m a := by
  have hnull : NullSimpleName.length = 2 := rfl
  simp only [List.length_append, hnull] at hshort ⊢
  obtain ⟨hfirst, -, hleft⟩ := (holds_headed_iff hroot).mp h
  have hskip := SKIP_FullName_of_holds hroot h (by omega)
  rw [appendResolved, hskip]
  have hstart : p + (18 + left.length) = fn_name p + left.length := by
    unfold fn_name
    omega
  rw [hstart]
  constructor
  · refine INS16_holds hroot ?_ ?_ (by simp only [List.length_append, hnull]; omega) (by simp only [List.length_append, hnull]; omega)
    · exact (hfirst.write (.inl (by rw [hroot]; unfold fn_name; omega))).write (.inl (by rw [hroot]; unfold fn_name; omega))
    · refine Memory.holds_append_iff.mpr ⟨(hleft.write (.inl (by omega))).write (.inl (by omega)), ?_⟩
      exact Memory.holds_append_iff.mpr ⟨(Memory.holds_write ..).write (.inl (by omega)), Memory.holds_write ..⟩
  · intro a ha
    unfold fn_name
    rw [INS16_outside (by unfold fn_length; omega), Memory.write_outside _ (by rw [hnull]; omega),
      Memory.write_outside _ (by omega)]

theorem names_swap_holds {rootU rootR left rest : List Byte} {first : SimpleName_t} (ended : Bool)
    (hrootU : rootU.length = 16) (hrootR : rootR.length = 16) (hended : left ≠ [] → ended = true) (hrest : 2 ≤ rest.length)
    (hshortU : (first.image ++ rest).length < 2 ^ 16) (hshortR : (left ++ (first.image ++ NullSimpleName)).length < 2 ^ 16)
    (h : m.Holds p (headed order rootU (first.image ++ rest) ++
      headed order rootR (left ++ if ended then NullSimpleName else []))) :
    let swapped := names_swap order m p
    let image := headed order rootU rest ++ headed order rootR (left ++ (first.image ++ NullSimpleName))
    swapped.1.Holds p image ∧ swapped.2 = p + (headed order rootU rest).length ∧
      ∀ a, a < p ∨ p + image.length ≤ a → swapped.1 a = m a := by
  obtain ⟨hunresolved, hresolved⟩ := Memory.holds_append_iff.mp h
  have hbody := (holds_headed_iff hrootU).mp hunresolved
  have hfirst : m.Holds (fn_name p) first.image := (Memory.holds_append_iff.mp hbody.2.2).1
  have hnull : NullSimpleName.length = 2 := rfl
  have hsome := first.length_image
  have hlenU := EXT16_of_holds hrootU hunresolved hshortU
  have hskipU := SKIP_FullName_of_holds hrootU hunresolved hshortU
  simp only [List.length_append, hnull] at hlenU hskipU hshortU hshortR
  have hfull : ¬ EMPTY_FullName order m p := by
    rw [EMPTY_FullName, hlenU]
    omega
  rw [length_headed hrootU, List.length_append] at hresolved
  obtain ⟨r, hr⟩ : ∃ r, r = p + (18 + (first.image.length + rest.length)) := ⟨_, rfl⟩
  obtain ⟨q, hq⟩ : ∃ q, q = p + (18 + rest.length) := ⟨_, rfl⟩
  rw [← hr] at hresolved hskipU
  have hlenR : EXT16 order m (fn_length r) = (left ++ if ended then NullSimpleName else []).length := by
    refine EXT16_of_holds hrootR hresolved ?_
    cases ended <;> simp [hnull] <;> omega
  have hread : m.read (fn_name p) first.image.length = first.image := hfirst
  simp only [names_swap, if_neg hfull, hskipU, LEN_SimpleName_of_holds hfirst, hread, hlenR, length_headed hrootU,
    length_headed hrootR, List.length_append, hnull]
  -- the unresolved name without its first simple name
  obtain ⟨hshifted₁, hkept₁⟩ := shiftUnresolved_holds hrootU (by simpa using hshortU) hunresolved
  rw [← hq] at hkept₁
  have hresolved₁ := hresolved.congr fun k _ => hkept₁ (r + k) (by omega)
  generalize shiftUnresolved order m p first.image.length = m₁ at hshifted₁ hkept₁ hresolved₁ ⊢
  -- the resolved name without its null name
  obtain ⟨hresolved₂, hlen₂, hkept₂⟩ := removeNull_holds hrootR hended (by omega) hresolved₁ rfl
  rw [List.length_append] at hresolved₂ hlen₂ hkept₂
  generalize removeNull order m₁ r _ = removed at hresolved₂ hlen₂ hkept₂ ⊢
  obtain ⟨m₂, resolvedLen⟩ := removed
  dsimp only at hresolved₂ hlen₂ hkept₂ ⊢
  have hshifted₂ : m₂.Holds p (headed order rootU rest) := by
    refine hshifted₁.congr fun k hk => hkept₂ (p + k) (.inl ?_)
    rw [length_headed hrootU] at hk
    omega
  -- the resolved name behind the unresolved one
  have hsize : LEN_FullName order m₂ r = 18 + left.length := by
    rw [LEN_FullName, EXT16_of_holds hrootR hresolved₂ (by omega)]
  have htarget : SKIP_FullName order m₂ p = q := by rw [SKIP_FullName_of_holds hrootU hshifted₂ (by omega), hq]
  rw [hsize, htarget]
  have hresolved₃ : (m₂.move r q (18 + left.length)).Holds q (headed order rootR left) :=
    hresolved₂.moved (k := 0) q (18 + left.length) (by rw [length_headed hrootR]; omega)
  have hshifted₃ : (m₂.move r q (18 + left.length)).Holds p (headed order rootU rest) :=
    hshifted₂.move (.inl (by rw [length_headed hrootU]; omega))
  have hkept₃ : ∀ a, a < q ∨ q + (18 + left.length) ≤ a → m₂.move r q (18 + left.length) a = m₂ a :=
    fun a ha => Memory.move_outside _ ha
  generalize m₂.move r q (18 + left.length) = m₃ at hresolved₃ hshifted₃ hkept₃ ⊢
  have hbetween : SKIP_FullName order m₃ p = q := by rw [SKIP_FullName_of_holds hrootU hshifted₃ (by omega), hq]
  rw [hbetween]
  -- the simple name at its end
  obtain ⟨hresolved₄, hkept₄⟩ := appendResolved_holds first.image hrootR (by simpa [hnull] using hshortR) hresolved₃ hlen₂
  simp only [List.length_append, hnull] at hkept₄
  refine ⟨Memory.holds_append_iff.mpr ⟨?_, ?_⟩, hq, ?_⟩
  · refine hshifted₃.congr fun k hk => hkept₄ (p + k) (.inl ?_)
    rw [length_headed hrootU] at hk
    omega
  · rw [length_headed hrootU, ← hq]
    exact hresolved₄
  · intro a ha
    rw [hkept₄ a (by omega), hkept₃ a (by omega), hkept₂ a (by omega), hkept₁ a (by omega)]

end dce.cds.names
