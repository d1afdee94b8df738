import Mathlib.Data.BitVec
import Dce.Ubik.Phys

namespace dce.ubik

/-- `struct ubik_version`, with the `long`s it is made of. -/
structure ubik_version where
  epoch : Long
  counter : Long
  deriving DecidableEq, Repr

def vcmp (a b : ubik_version) : Long := if a.epoch = b.epoch then a.counter - b.counter else a.epoch - b.epoch

/-- How the call of `setlabel` ends. -/
inductive SetLabel where
  | labelled
  | failed
  | raised
  deriving DecidableEq, Repr

/-- What `urecovery_Interact` works on once it has found the best database of a quorum. -/
structure Recovery where
  RECHAVEDB : Bool
  RECLABELDB : Bool
  ubik_epochTime : Long
  /-- `ubik_dbase->version`. -/
  version : ubik_version
  /-- The label in the database file. -/
  label : ubik_version
  /-- The `TRDONE` flags of the active transactions. -/
  activeTrans : List Bool
  deriving DecidableEq, Repr

def urecovery_AbortAll (r : Recovery) : Recovery := { r with activeTrans := r.activeTrans.map fun _ => true }

/-- The part of `urecovery_Interact` that gets the best database: `bestServer` tells whether another server has it, under
`bestDBVersion`, and `fetched` is the label that came with the file, `none` if the call failed. -/
def getBest (r : Recovery) (bestServer : Bool) (bestDBVersion : ubik_version) (fetched : Option ubik_version)
    (setlabel : SetLabel) : Recovery :=
  if r.RECHAVEDB then r
  else if bestServer ∧ (vcmp r.version bestDBVersion).slt 0 then
    let r := urecovery_AbortAll r
    -- no label is valid while the file is in transit
    let r := { r with label := ⟨0, 0⟩ }
    match fetched with
    | some tversion =>
      { r with
        RECHAVEDB := true
        version := tversion
        label := if setlabel = .labelled then tversion else r.label }
    | none => { r with version := ⟨0, 0⟩ }
  else { r with RECHAVEDB := true }

/-- The part that gives the database a new label; `temp` is the clock. Nothing comes of it while there is no database to label
or the clock is behind the last epoch. -/
def relabel (r : Recovery) (temp : Long) (setlabel : SetLabel) : Option Recovery :=
  if ¬ r.RECHAVEDB then none
  else if r.RECLABELDB then none
  else
    let r := urecovery_AbortAll r
    if temp.slt r.ubik_epochTime then none
    else
      let version := ⟨temp, 1⟩
      some { r with
        ubik_epochTime := temp
        version := version
        label := if setlabel = .labelled then version else r.label
        RECLABELDB := setlabel = .labelled }

/-- `urecovery_Interact` comes to give a new label. -/
def Recovery.Relabels (r : Recovery) (temp : Long) : Prop :=
  r.RECHAVEDB = true ∧ r.RECLABELDB = false ∧ temp.slt r.ubik_epochTime = false

/-- The clock is past the epoch of the database, or in its first second and the counter has not come to 1. -/
def Recovery.Past (r : Recovery) (temp : Long) : Prop :=
  (temp ≠ r.version.epoch ∧ 0 < (temp - r.version.epoch).toInt) ∨
    (temp = r.version.epoch ∧ 0 < (1 - r.version.counter).toInt)

section Relabel

variable (r : Recovery) (temp : Long) (setlabel : SetLabel)

theorem relabel_spec :
    (r.Relabels temp ∧ ∃ r', relabel r temp setlabel = some r' ∧ r'.version = ⟨temp, 1⟩) ∨
      (¬ r.Relabels temp ∧ relabel r temp setlabel = none) := by
  by_cases hhave : r.RECHAVEDB = true
  swap
  · exact .inr ⟨fun h => hhave h.1, if_pos hhave⟩
  by_cases hlabel : r.RECLABELDB = true
  · refine .inr ⟨fun h => ?_, ?_⟩
    · exact Bool.false_ne_true (h.2.1.symm.trans hlabel)
    · rw [relabel, if_neg (not_not_intro hhave), if_pos hlabel]
  by_cases hskew : temp.slt r.ubik_epochTime = true
  · refine .inr ⟨fun h => ?_, ?_⟩
    · exact Bool.false_ne_true (h.2.2.symm.trans hskew)
    · rw [relabel, if_neg (not_not_intro hhave), if_neg hlabel]
      exact if_pos hskew
  · refine .inl ⟨⟨hhave, by simpa using hlabel, by simpa using hskew⟩, ?_⟩
    rw [relabel, if_neg (not_not_intro hhave), if_neg hlabel]
    exact ⟨_, if_neg hskew, rfl⟩

theorem vcmp_new (version : ubik_version) :
    vcmp ⟨temp, 1⟩ version = if temp = version.epoch then 1 - version.counter else temp - version.epoch := rfl

theorem vcmp_new_pos_iff : 0 < (vcmp ⟨temp, 1⟩ r.version).toInt ↔ r.Past temp := by
  rw [vcmp_new, Recovery.Past]
  by_cases hepoch : temp = r.version.epoch
  · rw [if_pos hepoch]
    simp [hepoch]
  · rw [if_neg hepoch]
    simp [hepoch]

/-- A relabelling moves the version forward just when the clock is past it. -/
theorem relabel_greater_iff :
    (∀ r', relabel r temp setlabel = some r' → 0 < (vcmp r'.version r.version).toInt) ↔ (r.Relabels temp → r.Past temp) := by
  rcases relabel_spec r temp setlabel with ⟨hrelabels, r', hsome, hversion⟩ | ⟨hrelabels, hnone⟩
  · rw [← vcmp_new_pos_iff, ← hversion]
    refine ⟨fun h _ => h r' hsome, fun h r'' hsome' => ?_⟩
    obtain rfl := Option.some.inj (hsome.symm.trans hsome')
    exact h hrelabels
  · refine ⟨fun _ h => absurd h hrelabels, fun _ r' hsome => ?_⟩
    rw [hnone] at hsome
    exact absurd hsome.symm (Option.some_ne_none r')

end Relabel

/-- The label of a database that was fetched from a server with a clock ahead is moved back, and so is that of commits in the
second of the last relabelling. -/
theorem labels_moved_back :
    (∃ r', relabel (getBest ⟨false, false, 0, ⟨0, 0⟩, ⟨0, 0⟩, []⟩ true ⟨1000, 5⟩ (some ⟨1000, 5⟩) .labelled) 900 .labelled = some r' ∧
      (vcmp r'.version ⟨1000, 5⟩).toInt < 0) ∧
    ∃ r', relabel ⟨true, false, 900, ⟨900, 3⟩, ⟨900, 3⟩, []⟩ 900 .labelled = some r' ∧ (vcmp r'.version ⟨900, 3⟩).toInt < 0 :=
  ⟨⟨_, rfl, by decide⟩, ⟨_, rfl, by decide⟩⟩

section Order

variable {a b c : ubik_version}

end Order

end dce.ubik
