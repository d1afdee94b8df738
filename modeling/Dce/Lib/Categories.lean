import Dce.Lib.BitSets

namespace lib

variable {σ ε α β : Type}

/-- A stateful computation gives an answer in which its state has no part. -/
def Answers (m : StateM σ α) (a : α) : Prop := ∀ s, (m.run s).1 = a

variable {m : StateM σ α} {f : α → StateM σ β} {a : α} {b : β}

theorem answers_pure : Answers (pure a : StateM σ α) a := fun _ => rfl

theorem Answers.bind (hm : Answers m a) (hf : Answers (f a) b) : Answers (m >>= f) b := by
  intro s
  have hfirst := hm s
  change ((f (m.run s).1).run (m.run s).2).1 = b
  rw [hfirst]
  exact hf _

theorem Answers.after_set {t : σ} {m : PUnit → StateM σ α} (hm : Answers (m ⟨⟩) a) : Answers (set t >>= m) a :=
  fun _ => hm t

variable {e : ε} {n : ExceptT ε (StateM σ) α} {g : α → ExceptT ε (StateM σ) β} {r : Except ε β}

theorem answers_ok : Answers (pure a : ExceptT ε (StateM σ) α).run (.ok a) := answers_pure

theorem Answers.lift (hm : Answers m a) : Answers (liftM m : ExceptT ε (StateM σ) α).run (.ok a) :=
  fun s => congrArg Except.ok (hm s)

theorem Answers.bind_ok (hn : Answers n.run (.ok a)) (hg : Answers (g a).run r) : Answers (n >>= g).run r := by
  rw [ExceptT.run_bind]
  exact hn.bind hg

theorem Answers.bind_error (hn : Answers n.run (.error e)) : Answers (n >>= g).run (.error e) := by
  rw [ExceptT.run_bind]
  exact hn.bind answers_pure

end lib

namespace lib

variable {w : ℕ}

def union : List (BitVec w) → Option (BitVec w)
  | [] => none
  | sets => some (join sets)

def first (categories : List (Option (BitVec w))) : BitVec w := (categories.findSome? id).getD 0

theorem union_congr {l l' : List (BitVec w)} (h : ∀ p, p ∈ l ↔ p ∈ l') : union l = union l' := by
  cases l with
  | nil =>
    obtain rfl : l' = [] := List.eq_nil_iff_forall_not_mem.mpr fun p hp => absurd ((h p).mpr hp) List.not_mem_nil
    rfl
  | cons p l =>
    cases l' with
    | nil => exact absurd ((h p).mp List.mem_cons_self) List.not_mem_nil
    | cons p' l' => exact congrArg some (join_congr h)

theorem union_eq (l : List (BitVec w)) : union l = if !l.isEmpty then some (join l) else none := by
  cases l <;> rfl

theorem first_cons_some (set : BitVec w) (rest : List (Option (BitVec w))) : first (some set :: rest) = set := rfl

theorem first_cons_none (rest : List (Option (BitVec w))) : first (none :: rest) = first rest := rfl

theorem first_append_of_some {l : List (Option (BitVec w))} (r : List (Option (BitVec w))) (hsome : ∃ p, some p ∈ l) :
    first (l ++ r) = first l := by
  induction l with
  | nil => simp at hsome
  | cons o l ih =>
    cases o with
    | some p => rfl
    | none => exact ih (by simpa using hsome)

theorem first_append_of_none {l : List (Option (BitVec w))} (r : List (Option (BitVec w))) (hnone : ¬ ∃ p, some p ∈ l) :
    first (l ++ r) = first r := by
  induction l with
  | nil => rfl
  | cons o l ih =>
    cases o with
    | some p => exact absurd ⟨p, List.mem_cons_self⟩ hnone
    | none => exact ih (by simpa using hnone)

theorem first_union_append_iff (sets more : List (BitVec w)) (rest : List (Option (BitVec w))) :
    first (union (sets ++ more) :: rest) = first (union sets :: rest) ↔
      more = [] ∨ sets ≠ [] ∧ Within (join more) (join sets) ∨ sets = [] ∧ join more = first rest := by
  cases more with
  | nil => simp
  | cons d more =>
    cases sets with
    | nil => simp [union, first_cons_some, first_cons_none]
    | cons r sets =>
      have hsum : first (union (r :: sets ++ d :: more) :: rest) = join (r :: sets) ||| join (d :: more) := join_append
      have hsets : first (union (r :: sets) :: rest) = join (r :: sets) := rfl
      rw [hsum, hsets, or_eq_left_iff]
      simp

end lib
