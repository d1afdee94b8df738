import Mathlib.Data.List.Basic

namespace lib

/-- A labelled transition system. A label carries every choice a step makes, so
one label determines the next state; `none` means that the step is not enabled. -/
structure System (σ ι : Type*) where
  init : σ → Prop
  step : σ → ι → Option σ

namespace System

variable {σ ι : Type*}

/-- Execution of a list of labels, stopping at the first disabled step. -/
def exec (M : System σ ι) : σ → List ι → Option σ
  | s, [] => some s
  | s, i :: is => (M.step s i).bind fun s' => exec M s' is

/-- A state reached from an initial one by some finite run. -/
inductive Reachable (M : System σ ι) : σ → Prop where
  | init {s : σ} : M.init s → Reachable M s
  | step {s s' : σ} {i : ι} : Reachable M s → M.step s i = some s' → Reachable M s'

/-- The runs of `M` that only take steps allowed in the state they start from. -/
def restrict (M : System σ ι) (allowed : σ → ι → Prop) [∀ s i, Decidable (allowed s i)] : System σ ι where
  init := M.init
  step s i := if allowed s i then M.step s i else none

@[simp] theorem exec_nil (M : System σ ι) (s : σ) : M.exec s [] = some s := rfl

theorem exec_cons (M : System σ ι) (s : σ) (i : ι) (is : List ι) :
    M.exec s (i :: is) = (M.step s i).bind fun s' => M.exec s' is := rfl

variable {M : System σ ι} {s s' : σ}

theorem Reachable.exec {is : List ι} (hs : M.Reachable s)
    (hexec : M.exec s is = some s') : M.Reachable s' := by
  induction is generalizing s with
  | nil =>
    obtain rfl : s = s' := by simpa using hexec
    exact hs
  | cons i is ih =>
    rw [exec_cons] at hexec
    obtain ⟨mid, hmid, hrest⟩ := Option.bind_eq_some_iff.mp hexec
    exact ih (hs.step hmid) hrest

theorem reachable_of_exec (is : List ι) (hinit : M.init s)
    (hexec : M.exec s is = some s') : M.Reachable s' :=
  (Reachable.init hinit).exec hexec

theorem exists_reachable_of_exec (M : System σ ι) {s : σ} (is : List ι) {P : σ → Bool} (hinit : M.init s)
    (hexec : (M.exec s is).any P = true) : ∃ s', M.Reachable s' ∧ P s' = true := by
  cases hrun : M.exec s is with
  | none => simp [hrun] at hexec
  | some s' => exact ⟨s', reachable_of_exec is hinit hrun, by simpa [hrun] using hexec⟩

theorem Reachable.invariant {P : σ → Prop} (hinit : ∀ s, M.init s → P s)
    (hstep : ∀ s i s', P s → M.step s i = some s' → P s') {s : σ} (hs : M.Reachable s) : P s := by
  induction hs with
  | init h => exact hinit _ h
  | step _ hnext ih => exact hstep _ _ _ ih hnext

theorem restrict_step {allowed : σ → ι → Prop} [∀ s i, Decidable (allowed s i)]
    {i : ι} (hstep : (M.restrict allowed).step s i = some s') :
    allowed s i ∧ M.step s i = some s' := by
  by_cases hok : allowed s i
  · exact ⟨hok, by simpa [restrict, hok] using hstep⟩
  · simp [restrict, hok] at hstep

theorem Reachable.of_restrict {allowed : σ → ι → Prop} [∀ s i, Decidable (allowed s i)]
    {s : σ} (hs : (M.restrict allowed).Reachable s) : M.Reachable s := by
  induction hs with
  | init h => exact .init h
  | step _ hnext ih => exact ih.step (restrict_step hnext).2

end System

end lib
