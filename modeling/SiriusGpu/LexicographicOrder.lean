import Mathlib

/-!
# Lexicographic comparisons

A comparison by a list of keys, the first that differs decides, and a comparison of values that
may be missing. Two lexicographic comparisons whose keys have the same ties agree on a pair up
to the first key on which they do not.
-/

namespace LexicographicOrder

section Keys

variable {ι ρ : Type}

def lexicographic (cmp : ι → ρ → ρ → Ordering) : List ι → ρ → ρ → Ordering
  | [], _, _ => .eq
  | key :: rest, a, b => (cmp key a b).then (lexicographic cmp rest a b)

variable {cmp cmp' : ι → ρ → ρ → Ordering} {keys : List ι} {a b : ρ}

theorem lexicographic_append (before after : List ι) :
    lexicographic cmp (before ++ after) a b =
      (lexicographic cmp before a b).then (lexicographic cmp after a b) := by
  induction before with
  | nil => rfl
  | cons key rest ih => rw [List.cons_append, lexicographic, ih, lexicographic, Ordering.then_assoc]

theorem lexicographic_eq_iff :
    lexicographic cmp keys a b = .eq ↔ ∀ key ∈ keys, cmp key a b = .eq := by
  induction keys with
  | nil => simp [lexicographic]
  | cons key rest ih => simp [lexicographic, ih]

/-- Total preorders compose. -/
theorem lexicographic_trans (trans : ∀ key ∈ keys, Std.TransCmp (cmp key)) :
    Std.TransCmp (lexicographic cmp keys) := by
  induction keys with
  | nil => exact { eq_swap := rfl, isLE_trans := fun _ _ => rfl }
  | cons key rest ih =>
      have head := trans key List.mem_cons_self
      have tail := ih fun key' member => trans key' (List.mem_cons_of_mem _ member)
      exact inferInstanceAs (Std.TransCmp (compareLex (cmp key) (lexicographic cmp rest)))

theorem lexicographic_congr {a' b' : ρ} (same : ∀ key ∈ keys, cmp key a b = cmp' key a' b') :
    lexicographic cmp keys a b = lexicographic cmp' keys a' b' := by
  induction keys with
  | nil => rfl
  | cons key rest ih =>
      rw [lexicographic, lexicographic, same key List.mem_cons_self,
        ih fun key' member => same key' (List.mem_cons_of_mem _ member)]

/-- The two comparisons tie on the keys before one on which they differ. -/
def FirstDifference (cmp cmp' : ι → ρ → ρ → Ordering) (keys : List ι) (a b : ρ) : Prop :=
  ∃ before key after, keys = before ++ key :: after ∧ lexicographic cmp before a b = .eq ∧
    cmp key a b ≠ cmp' key a b

theorem agree_of_no_difference (none : ¬ FirstDifference cmp cmp' keys a b) :
    lexicographic cmp keys a b = lexicographic cmp' keys a b := by
  induction keys with
  | nil => rfl
  | cons key rest ih =>
      have head : cmp key a b = cmp' key a b := by
        by_contra differ
        exact none ⟨[], key, rest, rfl, rfl, differ⟩
      rw [lexicographic, lexicographic, ← head]
      by_cases tie : cmp key a b = .eq
      · rw [ih]
        rintro ⟨before, key', after, rfl, ties, differ⟩
        refine none ⟨key :: before, key', after, rfl, ?_, differ⟩
        rw [lexicographic, tie, ties]
        rfl
      · cases decided : cmp key a b with
        | eq => exact absurd decided tie
        | lt => rfl
        | gt => rfl

/-- A pair that one comparison has in one order and the other in the other cannot be in a list
sorted by both. -/
theorem not_sorted_by_both {f g : ρ → ρ → Ordering} {l : List ρ}
    (sorted : l.Pairwise fun a b => (f a b).isLE = true)
    (sorted' : l.Pairwise fun a b => (g a b).isLE = true) (first : a ∈ l) (second : b ∈ l)
    (ordered : f a b = .lt) (reversed : f b a = .gt) (other : g a b = .gt) : False := by
  obtain ⟨i, inside, rfl⟩ := List.getElem_of_mem first
  obtain ⟨j, inside', rfl⟩ := List.getElem_of_mem second
  rcases Nat.lt_trichotomy i j with before | same | after
  · have := List.pairwise_iff_getElem.mp sorted' i j inside inside' before
    rw [other] at this
    cases this
  · subst same
    rw [ordered] at reversed
    cases reversed
  · have := List.pairwise_iff_getElem.mp sorted j i inside' inside after
    rw [reversed] at this
    cases this

end Keys

section Missing

variable {α : Type}

/-- `nulls` is how a missing value compares to one that is there. -/
def compareNullable (cmp : α → α → Ordering) (nulls : Ordering) : Option α → Option α → Ordering
  | none, none => .eq
  | none, some _ => nulls
  | some _, none => nulls.swap
  | some a, some b => cmp a b

variable {cmp : α → α → Ordering} {nulls nulls' : Ordering} {a b : Option α}

theorem compareNullable_trans [Std.TransCmp cmp] (differ : nulls ≠ .eq) :
    Std.TransCmp (compareNullable cmp nulls) where
  eq_swap {a b} := by
    cases a <;> cases b <;> simp [compareNullable]
    exact Std.OrientedCmp.eq_swap
  isLE_trans {a b c} := by
    cases a <;> cases b <;> cases c <;> cases nulls <;> simp_all [compareNullable]
    all_goals exact Std.TransCmp.isLE_trans

theorem swap_compareNullable : (compareNullable cmp nulls a b).swap =
    compareNullable (fun a b => (cmp a b).swap) nulls.swap a b := by
  cases a <;> cases b <;> rfl

/-- Where one value is missing the comparison is not a tie. -/
theorem compareNullable_eq (differ : nulls ≠ .eq) : compareNullable cmp nulls a b = .eq ↔
    (a = none ∧ b = none) ∨ ∃ x y, a = some x ∧ b = some y ∧ cmp x y = .eq := by
  cases a <;> cases b <;> simp [compareNullable, differ]

theorem compareNullable_ne : compareNullable cmp nulls a b ≠ compareNullable cmp nulls' a b ↔
    nulls ≠ nulls' ∧ a.isSome ≠ b.isSome := by
  cases a <;> cases b <;> simp [compareNullable]

end Missing

end LexicographicOrder
