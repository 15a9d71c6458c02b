import Mathlib

/-!
# Three-valued truth

A truth value may be missing. A connective of many operands is decided by one of them, as in
Kleene's logic, or needs all of them, which is strict. In the order of information a missing
value is below every value. Strict connectives are below the others, and equal to them where no
operand is missing beside one that decides.
-/

namespace ThreeValued

section Information

variable {α β γ : Type*} {x x' : Option α} {y y' : Option β}

/-- What is known in the first is known in the second. -/
def Below (x x' : Option α) : Prop := ∀ a ∈ x, a ∈ x'

theorem Below.refl (x : Option α) : Below x x := fun _ known => known

theorem below_none (x' : Option α) : Below none x' := by
  intro a known
  cases known

theorem Below.trans {x'' : Option α} (first : Below x x') (second : Below x' x'') : Below x x'' :=
  fun a known => second a (first a known)

theorem Below.eq (below : Below x x') (known : x ≠ none) : x = x' := by
  obtain ⟨a, rfl⟩ := Option.ne_none_iff_exists'.mp known
  exact (below a rfl).symm

theorem Below.map (f : α → γ) (below : Below x x') : Below (x.map f) (x'.map f) := by
  intro c known
  obtain ⟨a, here, rfl⟩ := Option.mem_map.mp known
  exact Option.mem_map_of_mem f (below a here)

theorem Below.map₂ (f : α → β → γ) (first : Below x x') (second : Below y y') :
    Below (Option.map₂ f x y) (Option.map₂ f x' y') := by
  intro c known
  obtain ⟨a, b, here, here', rfl⟩ := Option.mem_map₂_iff.mp known
  exact Option.mem_map₂_iff.mpr ⟨a, b, first a here, second b here', rfl⟩

end Information

section Connectives

variable {d : Bool} {values values' : List (Option Bool)} {v : Option Bool}

/-- An operand `d` decides; without one a missing operand leaves the result open. -/
def decidedBy (d : Bool) (values : List (Option Bool)) : Option Bool :=
  if some d ∈ values then some d else if none ∈ values then none else some !d

/-- The strict connective of two operands. -/
def strict (d : Bool) : Option Bool → Option Bool → Option Bool :=
  Option.map₂ fun a b => if d then a || b else a && b

/-- The strict connective, operand by operand. -/
def strictFold (d : Bool) (start : Option Bool) (values : List (Option Bool)) : Option Bool :=
  values.foldl (fun output current => strict d current output) start

/-- No operand is missing beside one that decides. -/
def Clear (d : Bool) (values : List (Option Bool)) : Prop := ¬ (none ∈ values ∧ some d ∈ values)

theorem strict_none (x : Option Bool) : strict d x none = none := Option.map₂_none_right _ _

theorem strictFold_none (values : List (Option Bool)) : strictFold d none values = none := by
  induction values with
  | nil => rfl
  | cons v rest ih => rwa [strictFold, List.foldl_cons, strict_none]

/-- What the strict connective gives: nothing if an operand is missing. -/
theorem strictFold_eq (start : Option Bool) (values : List (Option Bool)) :
    strictFold d start values =
      if none ∈ start :: values then none else decidedBy d (start :: values) := by
  induction values generalizing start with
  | nil =>
    cases start with
    | none => rfl
    | some a => cases a <;> cases d <;> rfl
  | cons v rest ih =>
    rw [strictFold, List.foldl_cons, ← strictFold]
    cases start with
    | none => rw [strict_none, strictFold_none, if_pos List.mem_cons_self]
    | some a =>
      rw [ih]
      cases v with
      | none =>
        have missing : strict d none (some a) = none := rfl
        rw [missing, if_pos List.mem_cons_self, if_pos (by simp)]
      | some b =>
        have merged : strict d (some b) (some a) = some (if d then b || a else b && a) := rfl
        have whole {x : Bool} : none ∈ some x :: rest ↔ none ∈ rest := by simp
        have both : none ∈ some a :: some b :: rest ↔ none ∈ rest := by simp
        have decided : some d ∈ some (if d then b || a else b && a) :: rest ↔
            some d ∈ some a :: some b :: rest := by
          cases a <;> cases b <;> cases d <;> simp
        rw [merged]
        simp only [decidedBy, whole, both, decided]

/-- The strict connective gives no more than the other. -/
theorem strictFold_below (start : Option Bool) (values : List (Option Bool)) :
    Below (strictFold d start values) (decidedBy d (start :: values)) := by
  rw [strictFold_eq]
  split
  · exact below_none _
  · exact Below.refl _

/-- The two agree where no operand is missing beside one that decides. -/
theorem strictFold_eq_iff (start : Option Bool) (values : List (Option Bool)) :
    strictFold d start values = decidedBy d (start :: values) ↔ Clear d (start :: values) := by
  rw [strictFold_eq, Clear]
  by_cases missing : none ∈ start :: values
  · rw [if_pos missing, decidedBy]
    by_cases decided : some d ∈ start :: values
    · rw [if_pos decided]
      exact iff_of_false (fun same => by cases same) fun clear => clear ⟨missing, decided⟩
    · rw [if_neg decided, if_pos missing]
      exact iff_of_true rfl fun both => decided both.2
  · rw [if_neg missing]
    exact iff_of_true rfl fun both => missing both.1

/-- More information about the operands gives more about the result. -/
theorem decidedBy_mono (below : List.Forall₂ Below values values') :
    Below (decidedBy d values) (decidedBy d values') := by
  have known {a : Bool} (here : some a ∈ values) : some a ∈ values' := by
    induction below with
    | nil => cases here
    | cons head _ ih =>
      rcases List.mem_cons.mp here with rfl | later
      · rw [head a rfl]
        exact List.mem_cons_self
      · exact List.mem_cons_of_mem _ (ih later)
  intro a decided
  rw [decidedBy] at decided
  split at decided
  case isTrue here =>
    cases decided
    rw [decidedBy, if_pos (known here)]
    rfl
  case isFalse other =>
    split at decided
    case isTrue => cases decided
    case isFalse whole =>
      have same : values = values' := by
        clear known other decided
        induction below with
        | nil => rfl
        | cons head _ ih =>
          rw [List.mem_cons, not_or] at whole
          rw [head.eq (Ne.symm whole.1), ih whole.2]
      rw [← same, decidedBy, if_neg other, if_neg whole]
      exact decided

end Connectives

end ThreeValued
