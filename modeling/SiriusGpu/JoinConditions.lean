import Mathlib

/-!
# Join conditions

The comparison of a join condition and its meaning in SQL's three-valued logic: a
comparison with a NULL is not true, except that NOT DISTINCT FROM takes two NULLs
as the same value and DISTINCT FROM takes a NULL and a value as different ones.

Both the hash join and the nested-loop join hand conditions that are not all
equalities to `cudf_mixed_or_conditional_inner_join`.
-/

namespace JoinConditions

universe u

/-- The comparisons of a join condition; `other` is any further expression type. -/
inductive ComparisonType where
  | equal
  | notDistinctFrom
  | notEqual
  | distinctFrom
  | lessThan
  | greaterThan
  | lessThanOrEqualTo
  | greaterThanOrEqualTo
  | other (expressionType : Nat)
  deriving DecidableEq

namespace ComparisonType

/-- The comparisons a hash table answers. -/
def isEquality : ComparisonType → Bool
  | equal => true
  | notDistinctFrom => true
  | _ => false

def isOther : ComparisonType → Bool
  | other _ => true
  | _ => false

/-- The mode of key `key` of `numKeys` in the build of a hash table, which takes an inequality
as the second of two keys only. -/
def conditionMode (numKeys key : Nat) : ComparisonType → Option Nat
  | equal => some 0
  | notDistinctFrom => some 0
  | notEqual => if key ≠ 1 ∨ numKeys ≠ 2 then none else some 1
  | distinctFrom => if key ≠ 1 ∨ numKeys ≠ 2 then none else some 1
  | _ => none

variable {V : Type u} [LinearOrder V]

/-- The comparison of two values. -/
def compare : ComparisonType → V → V → Bool
  | equal, a, b => a = b
  | notDistinctFrom, a, b => a = b
  | notEqual, a, b => a ≠ b
  | distinctFrom, a, b => a ≠ b
  | lessThan, a, b => a < b
  | greaterThan, a, b => b < a
  | lessThanOrEqualTo, a, b => a ≤ b
  | greaterThanOrEqualTo, a, b => b ≤ a
  | other _, _, _ => false

/-- The comparison in SQL, where `none` is NULL. -/
def holds (comparison : ComparisonType) (a b : Option V) : Bool :=
  match a, b with
  | some a, some b => comparison.compare a b
  | none, none => comparison = notDistinctFrom
  | _, _ => comparison = distinctFrom

@[simp] theorem holds_some (comparison : ComparisonType) (a b : V) :
    comparison.holds (some a) (some b) = comparison.compare a b := rfl

end ComparisonType

/-- All pairs of a probe row and a build row. -/
def rowPairs (probeRows buildRows : Nat) : List (Nat × Nat) :=
  List.range probeRows ×ˢ List.range buildRows

variable {probeRows buildRows l r : Nat}

@[simp] theorem mem_rowPairs :
    (l, r) ∈ rowPairs probeRows buildRows ↔ l < probeRows ∧ r < buildRows := by
  simp [rowPairs, List.mem_product]

theorem rowPairs_nodup (probeRows buildRows : Nat) : (rowPairs probeRows buildRows).Nodup :=
  List.Nodup.product List.nodup_range List.nodup_range

theorem rowPairs_eq_nil (empty : probeRows = 0 ∨ buildRows = 0) :
    rowPairs probeRows buildRows = [] := by
  rcases empty with rfl | rfl
  · rfl
  · exact List.product_nil _

theorem filter_perm_filter {p q : Nat × Nat → Bool} :
    ((rowPairs probeRows buildRows).filter p).Perm ((rowPairs probeRows buildRows).filter q) ↔
      ∀ l < probeRows, ∀ r < buildRows, p (l, r) = q (l, r) := by
  rw [List.perm_ext_iff_of_nodup ((rowPairs_nodup _ _).filter p) ((rowPairs_nodup _ _).filter q)]
  constructor
  · intro same l hl r hr
    have := same (l, r)
    simp only [List.mem_filter, mem_rowPairs, hl, hr, true_and, and_true] at this
    exact Bool.eq_iff_iff.mpr this
  · rintro same ⟨l, r⟩
    simp only [List.mem_filter, mem_rowPairs]
    constructor
    · rintro ⟨⟨hl, hr⟩, chosen⟩
      exact ⟨⟨hl, hr⟩, same l hl r hr ▸ chosen⟩
    · rintro ⟨⟨hl, hr⟩, chosen⟩
      exact ⟨⟨hl, hr⟩, (same l hl r hr).symm ▸ chosen⟩

/-! ## Mixed and conditional joins -/

/-- How a join ends: with an exception, an assertion that fails, undefined behaviour in
C++, or a result. -/
inductive Outcome (R : Type) where
  | raised (message : String)
  | aborted
  | undefined
  | returned (result : R)

namespace Outcome

variable {R S : Type}

def ofExcept : Except String R → Outcome R
  | .error message => .raised message
  | .ok result => .returned result

def map (f : R → S) : Outcome R → Outcome S
  | raised message => raised message
  | aborted => aborted
  | undefined => undefined
  | returned result => returned (f result)

end Outcome

section Mixed

variable {C : Type} (comparison : C → ComparisonType) (obstacle : C → Option String)
  (conditionalInnerJoin : C → Except String (List (Nat × Nat)))
  (mixedInnerJoin : List C → C → Except String (List (Nat × Nat)))

def equalities (conditions : List C) : List C :=
  conditions.filter fun condition => (comparison condition).isEquality

def inequalities (conditions : List C) : List C :=
  conditions.filter fun condition => !(comparison condition).isEquality

/-- `obstacle` says what the loop over the conditions raises. Each predicate refers to its
operands in vectors that the next one makes grow, so that two or more have no operands when
they are evaluated; with none the first element of an empty vector is taken. -/
def cudfMixedOrConditionalInnerJoin (buildRows probeRows : Nat) (conditions : List C) :
    Outcome (List (Nat × Nat)) :=
  if buildRows = 0 ∨ probeRows = 0 then .returned []
  else
    match conditions.findSome? obstacle with
    | some message => .raised message
    | none =>
        let equal := equalities comparison conditions
        match inequalities comparison conditions with
        | [condition] =>
            if equal.length = 0 then .ofExcept (conditionalInnerJoin condition)
            else .ofExcept (mixedInnerJoin equal condition)
        | _ => .undefined

variable {comparison obstacle conditionalInnerJoin mixedInnerJoin}
variable {buildRows probeRows : Nat} {conditions : List C}

theorem forall_split (comparison : C → ComparisonType) {p : C → Prop} :
    (∀ condition ∈ conditions, p condition) ↔
      (∀ condition ∈ equalities comparison conditions, p condition) ∧
        ∀ condition ∈ inequalities comparison conditions, p condition := by
  constructor
  · intro all
    constructor
    · intro condition member
      exact all condition (List.mem_of_mem_filter member)
    · intro condition member
      exact all condition (List.mem_of_mem_filter member)
  · rintro ⟨eqs, ineqs⟩ condition member
    cases equality : (comparison condition).isEquality with
    | true => exact eqs condition (List.mem_filter.mpr ⟨member, equality⟩)
    | false => exact ineqs condition (List.mem_filter.mpr ⟨member, by simp [equality]⟩)

theorem mixed_empty (empty : buildRows = 0 ∨ probeRows = 0) :
    cudfMixedOrConditionalInnerJoin comparison obstacle conditionalInnerJoin mixedInnerJoin
      buildRows probeRows conditions = .returned [] := by
  rw [cudfMixedOrConditionalInnerJoin, if_pos empty]

theorem mixed_raised (rows : ¬ (buildRows = 0 ∨ probeRows = 0))
    (refused : ∃ condition ∈ conditions, obstacle condition ≠ none) :
    ∃ message, cudfMixedOrConditionalInnerJoin comparison obstacle conditionalInnerJoin
      mixedInnerJoin buildRows probeRows conditions = .raised message := by
  rw [cudfMixedOrConditionalInnerJoin, if_neg rows]
  cases stopped : conditions.findSome? obstacle with
  | some message => exact ⟨message, rfl⟩
  | none =>
      obtain ⟨condition, member, refused⟩ := refused
      exact absurd (List.findSome?_eq_none_iff.mp stopped condition member) refused

theorem mixed_undefined (rows : ¬ (buildRows = 0 ∨ probeRows = 0))
    (passed : ∀ condition ∈ conditions, obstacle condition = none)
    (several : (inequalities comparison conditions).length ≠ 1) :
    cudfMixedOrConditionalInnerJoin comparison obstacle conditionalInnerJoin mixedInnerJoin
      buildRows probeRows conditions = .undefined := by
  rw [cudfMixedOrConditionalInnerJoin, if_neg rows, List.findSome?_eq_none_iff.mpr passed]
  dsimp only
  split
  case h_1 condition alone => exact absurd (by rw [alone]; rfl) several
  case h_2 => rfl

/-- With one predicate that no condition prevents, cudf is asked. -/
theorem mixed_single (rows : ¬ (buildRows = 0 ∨ probeRows = 0))
    (passed : ∀ condition ∈ conditions, obstacle condition = none) {condition : C}
    (alone : inequalities comparison conditions = [condition]) :
    cudfMixedOrConditionalInnerJoin comparison obstacle conditionalInnerJoin mixedInnerJoin
      buildRows probeRows conditions =
      .ofExcept (if equalities comparison conditions = [] then conditionalInnerJoin condition
        else mixedInnerJoin (equalities comparison conditions) condition) := by
  rw [cudfMixedOrConditionalInnerJoin, if_neg rows, List.findSome?_eq_none_iff.mpr passed]
  simp only [alone, List.length_eq_zero_iff]
  split
  · rfl
  · rfl

end Mixed

end JoinConditions
