import Mathlib.Algebra.Ring.Nat
import Mathlib.Data.Fintype.Basic

namespace dce.tkm

/-- `tkm_tokenType_t`, without the two that are no types. -/
inductive TokenType where
  | TKM_LOCK_READ
  | TKM_LOCK_WRITE
  | TKM_DATA_READ
  | TKM_DATA_WRITE
  | TKM_OPEN_READ
  | TKM_OPEN_WRITE
  | TKM_OPEN_SHARED
  | TKM_OPEN_EXCLUSIVE
  | TKM_OPEN_DELETE
  | TKM_OPEN_PRESERVE
  | TKM_STATUS_READ
  | TKM_STATUS_WRITE
  | TKM_NUKE
  | TKM_SPOT_HERE
  | TKM_SPOT_THERE
  deriving DecidableEq, Repr

open TokenType

instance : Fintype TokenType where
  elems := {TKM_LOCK_READ, TKM_LOCK_WRITE, TKM_DATA_READ, TKM_DATA_WRITE, TKM_OPEN_READ, TKM_OPEN_WRITE,
    TKM_OPEN_SHARED, TKM_OPEN_EXCLUSIVE, TKM_OPEN_DELETE, TKM_OPEN_PRESERVE, TKM_STATUS_READ, TKM_STATUS_WRITE,
    TKM_NUKE, TKM_SPOT_HERE, TKM_SPOT_THERE}
  complete a := by cases a <;> decide

abbrev Types := Finset TokenType

def conflict : List (TokenType × TokenType) :=
  [(TKM_OPEN_READ, TKM_OPEN_EXCLUSIVE), (TKM_OPEN_WRITE, TKM_OPEN_EXCLUSIVE), (TKM_OPEN_WRITE, TKM_OPEN_SHARED),
    (TKM_OPEN_EXCLUSIVE, TKM_OPEN_EXCLUSIVE), (TKM_OPEN_EXCLUSIVE, TKM_OPEN_SHARED),
    (TKM_STATUS_READ, TKM_STATUS_WRITE), (TKM_STATUS_WRITE, TKM_STATUS_WRITE), (TKM_LOCK_READ, TKM_LOCK_WRITE),
    (TKM_LOCK_WRITE, TKM_LOCK_WRITE), (TKM_DATA_READ, TKM_DATA_WRITE), (TKM_DATA_WRITE, TKM_DATA_WRITE),
    (TKM_OPEN_DELETE, TKM_OPEN_READ), (TKM_OPEN_DELETE, TKM_OPEN_WRITE), (TKM_OPEN_DELETE, TKM_OPEN_SHARED),
    (TKM_OPEN_DELETE, TKM_OPEN_EXCLUSIVE), (TKM_OPEN_DELETE, TKM_OPEN_DELETE), (TKM_OPEN_DELETE, TKM_OPEN_PRESERVE),
    (TKM_SPOT_HERE, TKM_SPOT_THERE)]

/-- `ctable`: the table, read in both directions. -/
def ctable (a b : TokenType) : Bool := conflict.contains (a, b) || conflict.contains (b, a)

def ranged : TokenType → Bool
  | TKM_LOCK_READ | TKM_LOCK_WRITE | TKM_DATA_READ | TKM_DATA_WRITE => true
  | _ => false

/-- `TKM_TYPE_CONFLICTS`: the types that conflict with one of the given types. -/
def TKM_TYPE_CONFLICTS (types : Types) : Types := Finset.univ.filter fun b => ∃ a ∈ types, ctable a b = true

def TKM_TYPES_WITH_RANGE (types : Types) : Types := types.filter fun a => ranged a = true

def TKM_TYPES_WITHOUT_RANGE (types : Types) : Types := types.filter fun a => ranged a = false

theorem ctable_comm (a b : TokenType) : ctable a b = ctable b a := Bool.or_comm _ _

theorem ranged_of_ctable {a b : TokenType} (hconflict : ctable a b = true) : ranged a = ranged b := by
  revert a b
  decide

@[simp] theorem mem_conflicts {types : Types} {b : TokenType} :
    b ∈ TKM_TYPE_CONFLICTS types ↔ ∃ a ∈ types, ctable a b = true := by
  simp [TKM_TYPE_CONFLICTS]

@[simp] theorem mem_withRange {types : Types} {a : TokenType} :
    a ∈ TKM_TYPES_WITH_RANGE types ↔ a ∈ types ∧ ranged a = true := Finset.mem_filter

@[simp] theorem mem_withoutRange {types : Types} {a : TokenType} :
    a ∈ TKM_TYPES_WITHOUT_RANGE types ↔ a ∈ types ∧ ranged a = false := Finset.mem_filter

/-- `tkm_byterange_t`. Its bounds are unsigned 64-bit integers, and both count. -/
structure ByteRange where
  lowBnd : ℕ
  upBnd : ℕ
  deriving DecidableEq, Repr, Inhabited

namespace ByteRange

/-- `TKM_BYTERANGE_IS_EMPTY`. -/
def isEmpty (r : ByteRange) : Bool := decide (r.upBnd < r.lowBnd)

/-- `TKM_DISJOINT_BYTERANGES`. -/
def disjoint (left right : ByteRange) : Bool :=
  left.isEmpty || right.isEmpty || decide (min left.upBnd right.upBnd < max left.lowBnd right.lowBnd)

/-- `TKM_BYTERANGE_IS_SUBRANGE`. -/
def isSubrange (sub range : ByteRange) : Bool := decide (range.lowBnd ≤ sub.lowBnd ∧ sub.upBnd ≤ range.upBnd)

/-- `tkm_ByterangeComplement` of `part` in `whole`: what lies below and what lies
above. A single piece is always the first. -/
def complement (whole part : ByteRange) : Option ByteRange × Option ByteRange :=
  if whole.isSubrange part then (none, none)
  else if whole = part then (none, none)
  else if whole.disjoint part then (some whole, none)
  else
    let enclosed : ByteRange := ⟨max whole.lowBnd part.lowBnd, min whole.upBnd part.upBnd⟩
    if whole.lowBnd = enclosed.lowBnd then (some ⟨enclosed.upBnd + 1, whole.upBnd⟩, none)
    else if whole.upBnd = enclosed.upBnd then (some ⟨whole.lowBnd, enclosed.lowBnd - 1⟩, none)
    else (some ⟨whole.lowBnd, enclosed.lowBnd - 1⟩, some ⟨enclosed.upBnd + 1, whole.upBnd⟩)

def Inside (sub range : ByteRange) : Prop := range.lowBnd ≤ sub.lowBnd ∧ sub.upBnd ≤ range.upBnd

theorem complement_inside {whole part : ByteRange} :
    (∀ r, (complement whole part).1 = some r → r.Inside whole) ∧
      ∀ r, (complement whole part).2 = some r → r.Inside whole := by
  unfold complement
  split
  · exact ⟨nofun, nofun⟩
  · split
    · exact ⟨nofun, nofun⟩
    · split
      · exact ⟨fun r hr => Option.some.inj hr ▸ ⟨Nat.le_refl _, Nat.le_refl _⟩, nofun⟩
      · next hmeet =>
        simp only [disjoint, isEmpty, Bool.or_eq_true, decide_eq_true_eq, not_or, Nat.not_lt] at hmeet
        obtain ⟨⟨hleft, hright⟩, hcommon⟩ := hmeet
        dsimp only
        split
        · refine ⟨fun r hr => ?_, nofun⟩
          obtain rfl := Option.some.inj hr
          exact ⟨by dsimp only; omega, Nat.le_refl _⟩
        · split
          · refine ⟨fun r hr => ?_, nofun⟩
            obtain rfl := Option.some.inj hr
            exact ⟨Nat.le_refl _, by dsimp only; omega⟩
          · refine ⟨fun r hr => ?_, fun r hr => ?_⟩
            · obtain rfl := Option.some.inj hr
              exact ⟨Nat.le_refl _, by dsimp only; omega⟩
            · obtain rfl := Option.some.inj hr
              exact ⟨by dsimp only; omega, Nat.le_refl _⟩

end ByteRange

/-- `tkm_tokenMask_t`: for each type how many of some tokens have it. -/
structure TokenMask where
  typeSum : Types
  counter : TokenType → ℕ

def TokenMask.zero : TokenMask := ⟨∅, fun _ => 0⟩

def tkm_AddToTokenMask (maskP : TokenMask) (types : Types) : TokenMask where
  typeSum := maskP.typeSum ∪ types
  counter i := if i ∈ types then maskP.counter i + 1 else maskP.counter i

/-- `tkm_RemoveFromTokenMask`, which asserts that the counters are positive. -/
def tkm_RemoveFromTokenMask (maskP : TokenMask) (types : Types) : Option TokenMask :=
  if ∃ i ∈ types, maskP.counter i = 0 then none
  else some
    { typeSum := maskP.typeSum.filter fun i => ¬(i ∈ types ∧ maskP.counter i = 1)
      counter := fun i => if i ∈ types then maskP.counter i - 1 else maskP.counter i }

end dce.tkm
