import Mathlib.Logic.Relation

namespace lib

variable {π ε : Type*} {α β : Type}

/-- A computation follows a walk over places from `start` on: it has a value that fits a place it comes to, or it stops for
what stops the walk at such a place, or for a reason of its own. -/
inductive Follows (step : π → π → Prop) (stops : π → ε → Prop) (own : ε → Prop) (start : π) (fits : α → π → Prop) :
    Except ε α → Prop where
  | value {a : α} {p : π} : Relation.ReflTransGen step start p → fits a p → Follows step stops own start fits (.ok a)
  | stop {e : ε} {p : π} : Relation.ReflTransGen step start p → stops p e → Follows step stops own start fits (.error e)
  | own {e : ε} : own e → Follows step stops own start fits (.error e)

namespace Follows

variable {step : π → π → Prop} {stops : π → ε → Prop} {own : ε → Prop} {start p : π}
  {fits : α → π → Prop} {fits' : β → π → Prop}

theorem here {a : α} (h : fits a start) : Follows step stops own start fits (.ok a) := .value .refl h

theorem stopped {e : ε} (h : stops start e) : Follows step stops own start fits (.error e) := .stop .refl h

theorem after {x : Except ε α} (hwalk : Relation.ReflTransGen step p start) (h : Follows step stops own start fits x) :
    Follows step stops own p fits x := by
  cases h with
  | value hrest hfits => exact .value (hwalk.trans hrest) hfits
  | stop hrest hstops => exact .stop (hwalk.trans hrest) hstops
  | own howns => exact .own howns

theorem walk_on {x : Except ε α} {fits' : α → π → Prop} (h : Follows step stops own start fits x)
    (hon : ∀ a p, fits a p → ∃ q, Relation.ReflTransGen step p q ∧ fits' a q) : Follows step stops own start fits' x := by
  cases h with
  | value hwalk hfits =>
    obtain ⟨q, hrest, hfits'⟩ := hon _ _ hfits
    exact .value (hwalk.trans hrest) hfits'
  | stop hwalk hstops => exact .stop hwalk hstops
  | own howns => exact .own howns

theorem weaken {x : Except ε α} {fits' : α → π → Prop} (h : Follows step stops own start fits x)
    (himp : ∀ a p, fits a p → fits' a p) : Follows step stops own start fits' x :=
  h.walk_on fun a p hfits => ⟨p, .refl, himp a p hfits⟩

theorem bind {x : Except ε α} {f : α → Except ε β} (h : Follows step stops own start fits x)
    (hf : ∀ a p, fits a p → Follows step stops own p fits' (f a)) : Follows step stops own start fits' (x >>= f) := by
  cases h with
  | value hwalk hfits => exact (hf _ _ hfits).after hwalk
  | stop hwalk hstops => exact .stop hwalk hstops
  | own howns => exact .own howns

end Follows

theorem ends_unique {step : π → π → Prop} (hunique : Relator.RightUnique step) {start p q : π}
    (hp : Relation.ReflTransGen step start p) (hq : Relation.ReflTransGen step start q)
    (hpend : ∀ r, ¬ step p r) (hqend : ∀ r, ¬ step q r) : p = q := by
  rcases Relation.ReflTransGen.total_of_right_unique hunique hp hq with hpq | hqp
  · rcases hpq.cases_head with heq | ⟨r, hstep, -⟩
    · exact heq
    · exact absurd hstep (hpend r)
  · rcases hqp.cases_head with heq | ⟨r, hstep, -⟩
    · exact heq.symm
    · exact absurd hstep (hqend r)

end lib
