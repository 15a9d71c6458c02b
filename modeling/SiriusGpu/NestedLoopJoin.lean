import Mathlib
import SiriusGpu.JoinConditions
import SiriusGpu.TwoPassCompaction

/-!
# Nested-loop inner joins

`ResolveComplexJoin` of the nested-loop join: its own kernel for keys that are all
INT64 or all FLOAT64, cudf for all others. The linear order `F` stands for the
doubles other than NaN and for the values of the other types; a NaN is the top
element, equal to itself and above every number as SQL orders it.

The keys are taken after their casts, and a VARCHAR key without the offsets that the
right side drops. The join functions of cudf are a parameter.
-/

namespace NestedLoopJoin

open JoinConditions BlockCompaction
open OffsetArrays (handed written)
open TwoPassCompaction (offsetIndex arranged_tiles own_entries)

/-- The data of a key on both sides, by its GPU type. -/
inductive Keys (F : Type) where
  | INT64 (left right : Nat → BitVec 64)
  | FLOAT64 (left right : Nat → WithTop F)
  | VARCHAR (rightRowIds : Bool) (left right : Nat → F)
  | other (id : Nat) (left right : Nat → F)

/-- A join condition with its keys and the rows of each side that are not NULL. -/
structure Condition (F : Type) where
  comparison : ComparisonType
  keys : Keys F
  leftValid : Nat → Bool
  rightValid : Nat → Bool

/-- The join as it is planned. -/
structure Input (F : Type) where
  planned : List (Condition F)
  leftRows : Nat
  rightRows : Nat

variable {F : Type} [LinearOrder F]

/-! ## What the conditions ask for -/

section Meaning

def cell {V : Type} (valid : Nat → Bool) (data : Nat → V) (row : Nat) : Option V :=
  if valid row then some (data row) else none

/-- The condition on a pair of rows in SQL. -/
def Condition.holds (condition : Condition F) (l r : Nat) : Bool :=
  match condition.keys with
  | .INT64 left right => condition.comparison.holds
      (cell condition.leftValid (fun row => (left row).toInt) l)
      (cell condition.rightValid (fun row => (right row).toInt) r)
  | .FLOAT64 left right => condition.comparison.holds
      (cell condition.leftValid left l) (cell condition.rightValid right r)
  | .VARCHAR _ left right => condition.comparison.holds
      (cell condition.leftValid left l) (cell condition.rightValid right r)
  | .other _ left right => condition.comparison.holds
      (cell condition.leftValid left l) (cell condition.rightValid right r)

/-- The pairs of rows that satisfy all conditions. -/
def exactPairs (input : Input F) : List (Nat × Nat) :=
  (rowPairs input.leftRows input.rightRows).filter fun pair =>
    input.planned.all fun condition => condition.holds pair.1 pair.2

end Meaning

/-! ## The operator -/

section Operator

/-- The constructor of the join moves the equalities to the start and fills in the
others from the end. -/
def conditions (input : Input F) : List (Condition F) :=
  input.planned.filter (fun condition => condition.comparison.isEquality) ++
    (input.planned.filter fun condition => !condition.comparison.isEquality).reverse

def conditionMode : ComparisonType → Option Nat
  | .equal | .notDistinctFrom => some 0
  | .notEqual | .distinctFrom => some 1
  | .lessThan => some 2
  | .greaterThan => some 3
  | _ => none

/-- `local_found` of the kernels, from what `==`, `>=` and `<=` say of the two keys. -/
def localFound (mode : Nat) (eq ge le : Bool) : Bool :=
  if mode = 0 ∧ eq = false then false
  else if mode = 1 ∧ eq = true then false
  else if mode = 2 ∧ ge = true then false
  else if mode = 3 ∧ le = true then false
  else true

/-- `==` and `<=` on doubles, false on a NaN. -/
def doubleEq (a b : WithTop F) : Bool := a = b ∧ a ≠ ⊤

def doubleLe (a b : WithTop F) : Bool := a ≤ b ∧ b ≠ ⊤

/-- The kernels read INT64 keys as `uint64_t`. -/
def Keys.found (keys : Keys F) (mode l r : Nat) : Bool :=
  match keys with
  | .INT64 left right => localFound mode (left l = right r)
      ((right r).toNat ≤ (left l).toNat) ((left l).toNat ≤ (right r).toNat)
  | .FLOAT64 left right => localFound mode (doubleEq (left l) (right r))
      (doubleLe (right r) (left l)) (doubleLe (left l) (right r))
  | _ => false

def BLOCK_THREADS : Nat := 128

def INT32_MAX : Nat := 2 ^ 31 - 1

/-- The pairs a thread finds: its left row with each right row. -/
def selected (leftRows rightRows : Nat) (found : Nat → Nat → Bool) (block t : Nat) :
    List (Nat × Nat) :=
  (tileItems BLOCK_THREADS 1 leftRows block t).flatMap fun l =>
    ((List.range rightRows).filter (found l)).map fun r => (l, r)

/-- The orders of the blocks' additions, of the stores to `offset_each_thread` and of the
writes of the second kernel. -/
structure Schedule where
  order : List Nat
  stores : List (Nat × Nat)
  writes : List ((Nat × Nat) × Nat)

/-- A thread on a left row has an entry of `offset_each_thread`. -/
def stored (leftRows block t : Nat) : Bool := block * (BLOCK_THREADS * 1) + t < leftRows

structure Schedule.Runs (schedule : Schedule) (leftRows rightRows : Nat)
    (found : Nat → Nat → Bool) : Prop where
  blocks : schedule.order.Perm (List.range (numTiles BLOCK_THREADS 1 leftRows))
  stores : schedule.stores.Perm (handed BLOCK_THREADS (selected leftRows rightRows found)
    (stored leftRows) (offsetIndex BLOCK_THREADS) schedule.order)
  writes : schedule.writes.Perm (written BLOCK_THREADS (numTiles BLOCK_THREADS 1 leftRows)
    (selected leftRows rightRows found) (stored leftRows) (offsetIndex BLOCK_THREADS)
    (perform schedule.stores))

def Schedule.count (schedule : Schedule) (leftRows rightRows : Nat)
    (found : Nat → Nat → Bool) : Nat :=
  (schedule.order.map fun block =>
    exclusiveSum (selected leftRows rightRows found block) BLOCK_THREADS).sum

/-- The `int` counters of the kernels do not overflow: the loop over the right rows,
and the sum over all threads of a block but the last. -/
def Fits (leftRows rightRows : Nat) (found : Nat → Nat → Bool) : Prop :=
  rightRows ≤ INT32_MAX ∧ ∀ block < numTiles BLOCK_THREADS 1 leftRows,
    exclusiveSum (selected leftRows rightRows found block) (BLOCK_THREADS - 1) ≤ INT32_MAX

instance (leftRows rightRows : Nat) (found : Nat → Nat → Bool) :
    Decidable (Fits leftRows rightRows found) :=
  inferInstanceAs (Decidable (_ ∧ _))

/-- `assertions` says whether the build keeps its `assert`s. -/
def nestedLoopJoin (assertions : Bool) (schedule : Schedule) (leftRows rightRows : Nat)
    (found : Nat → Nat → Bool) : Outcome (List (Option (Nat × Nat))) :=
  if leftRows = 0 ∨ rightRows = 0 then .returned []
  else if ¬ Fits leftRows rightRows found then .undefined
  else if assertions = true ∧ schedule.count leftRows rightRows found = 0 then .aborted
  else .returned ((List.range (schedule.count leftRows rightRows found)).map
    (perform schedule.writes))

/-- What the kernels look for: the first key in the first mode. -/
def found (input : Input F) (l r : Nat) : Bool :=
  match conditions input with
  | [] => false
  | condition :: _ =>
      condition.keys.found ((conditionMode condition.comparison).getD 0) l r

def resolveTypeNestedLoopJoin (assertions : Bool) (schedule : Schedule) (input : Input F) :
    Outcome (List (Option (Nat × Nat))) :=
  match (conditions input).mapM fun condition => conditionMode condition.comparison with
  | none => .raised "Unsupported comparison type"
  | some _ => nestedLoopJoin assertions schedule input.leftRows input.rightRows (found input)

/-- cudf's join functions return the pairs that are equal and fulfil the predicate. -/
structure Cudf where
  conditionalInnerJoin : Nat → Nat → (Nat → Nat → Bool) → List (Nat × Nat)
  mixedInnerJoin : Nat → Nat → (Nat → Nat → Bool) → (Nat → Nat → Bool) → List (Nat × Nat)
  conditionalInnerJoin_perm : ∀ leftRows rightRows predicate,
    (conditionalInnerJoin leftRows rightRows predicate).Perm
      ((rowPairs leftRows rightRows).filter fun pair => predicate pair.1 pair.2)
  mixedInnerJoin_perm : ∀ leftRows rightRows same predicate,
    (mixedInnerJoin leftRows rightRows same predicate).Perm
      ((rowPairs leftRows rightRows).filter fun pair =>
        same pair.1 pair.2 && predicate pair.1 pair.2)

/-- The comparison in cudf: its hash join takes two NaNs as equal, the operators of
its predicates are those of C++. -/
def Keys.cudfCompare (keys : Keys F) (comparison : ComparisonType) (l r : Nat) : Bool :=
  match keys with
  | .INT64 left right => comparison.compare (left l).toInt (right r).toInt
  | .FLOAT64 left right =>
      match comparison with
      | .equal | .notDistinctFrom => left l = right r
      | .notEqual | .distinctFrom => !doubleEq (left l) (right r)
      | .lessThan => left l < right r ∧ right r ≠ ⊤
      | .greaterThan => right r < left l ∧ left l ≠ ⊤
      | .lessThanOrEqualTo => doubleLe (left l) (right r)
      | .greaterThanOrEqualTo => doubleLe (right r) (left l)
      | .other _ => false
  | .VARCHAR _ left right => comparison.compare (left l) (right r)
  | .other _ left right => comparison.compare (left l) (right r)

/-- A NULL on the left is never selected; the right side has lost its mask. -/
def Condition.selects (condition : Condition F) (l r : Nat) : Bool :=
  condition.leftValid l && condition.keys.cudfCompare condition.comparison l r

def Keys.isVarchar : Keys F → Bool
  | .VARCHAR _ _ _ => true
  | _ => false

/-- The number of rows as cudf's 32-bit `size_type`; the upper half is negative. -/
def sizeType (rows : Nat) : Nat := rows % 2 ^ 32

/-- What the loop over the conditions raises: an unknown comparison, or what cudf says of a
negative size or of a VARCHAR column without offsets. -/
def Condition.obstacle (leftRows rightRows : Nat) (condition : Condition F) : Option String :=
  if condition.comparison.isOther then some "Unsupported comparison type in cudf_mixed_join"
  else if INT32_MAX < sizeType leftRows ∨ INT32_MAX < sizeType rightRows then
    some "Column size cannot be negative."
  else if condition.keys.isVarchar then some "Null data pointer."
  else none

def cudfMixedOrConditionalInnerJoin (cudf : Cudf) (input : Input F) :
    Outcome (List (Nat × Nat)) :=
  JoinConditions.cudfMixedOrConditionalInnerJoin Condition.comparison
    (Condition.obstacle input.leftRows input.rightRows)
    (fun condition => .ok (cudf.conditionalInnerJoin (sizeType input.leftRows)
      (sizeType input.rightRows) condition.selects))
    (fun equal condition => .ok (cudf.mixedInnerJoin (sizeType input.leftRows)
      (sizeType input.rightRows) (fun l r => equal.all fun condition => condition.selects l r)
      condition.selects))
    input.rightRows input.leftRows (conditions input)

def Keys.isInt64 : Keys F → Bool
  | .INT64 _ _ => true
  | _ => false

def Keys.isFloat64 : Keys F → Bool
  | .FLOAT64 _ _ => true
  | _ => false

/-- A VARCHAR key of the right side that is materialized through its row ids. -/
def Keys.readsOffsets : Keys F → Bool
  | .VARCHAR rightRowIds _ _ => rightRowIds
  | _ => false

/-- All keys are INT64 or all are FLOAT64. -/
def supported (input : Input F) : Bool :=
  ((conditions input).all fun condition => condition.keys.isInt64) ||
    (conditions input).all fun condition => condition.keys.isFloat64

def resolveComplexJoin (assertions : Bool) (cudf : Cudf) (schedule : Schedule)
    (input : Input F) : Outcome (List (Option (Nat × Nat))) :=
  if input.rightRows ≠ 0 ∧
      ((conditions input).any fun condition => condition.keys.readsOffsets) = true then .undefined
  else if supported input then resolveTypeNestedLoopJoin assertions schedule input
  else (cudfMixedOrConditionalInnerJoin cudf input).map (List.map some)

end Operator

/-! ## When the result is right -/

section Right

variable {input : Input F}

/-- The result is the pairs that satisfy all conditions, each once, or an exception. -/
def Exact (outcome : Outcome (List (Option (Nat × Nat)))) (input : Input F) : Prop :=
  match outcome with
  | .raised _ => True
  | .returned rowIds => rowIds.Perm ((exactPairs input).map some)
  | _ => False

/-- The two implementations return the same pairs. -/
def Agree (assertions : Bool) (cudf : Cudf) (schedule : Schedule) (input : Input F) : Prop :=
  ∀ own others, resolveTypeNestedLoopJoin assertions schedule input = .returned own →
    cudfMixedOrConditionalInnerJoin cudf input = .returned others → own.Perm (others.map some)

/-- The join is exact, and where its own kernel is used it returns what cudf returns. -/
def Correct (assertions : Bool) (input : Input F) : Prop :=
  ∀ (cudf : Cudf) (schedule : Schedule),
    schedule.Runs input.leftRows input.rightRows (found input) →
      Exact (resolveComplexJoin assertions cudf schedule input) input ∧
        (supported input = true → Agree assertions cudf schedule input)

/-- No other thread stores its offset in the entry of a thread that finds a pair. -/
def OwnEntries (input : Input F) : Prop :=
  OffsetArrays.Unshared BLOCK_THREADS (numTiles BLOCK_THREADS 1 input.leftRows)
    (selected input.leftRows input.rightRows (found input)) (stored input.leftRows)
    (offsetIndex BLOCK_THREADS)

/-- Two valid keys that the kernel compares otherwise than SQL does: integers of different
signs, or a NaN. -/
def Keys.kernelErrs (keys : Keys F) (comparison : ComparisonType) (l r : Nat) : Bool :=
  match keys with
  | .INT64 left right =>
      (comparison = .lessThan ∨ comparison = .greaterThan) ∧ (left l).msb ≠ (right r).msb
  | .FLOAT64 left right =>
      match comparison with
      | .lessThan => left l = ⊤
      | .greaterThan => right r = ⊤
      | _ => left l = ⊤ ∧ right r = ⊤
  | _ => false

/-- The bytes under a NULL may compare otherwise than a NULL does. -/
def Condition.misjudgedByKernel (condition : Condition F) (l r : Nat) : Bool :=
  if condition.leftValid l ∧ condition.rightValid r then
    condition.keys.kernelErrs condition.comparison l r
  else
    condition.keys.found ((conditionMode condition.comparison).getD 0) l r ≠ condition.holds l r

/-- No pair is misjudged by the first condition, unless another one refuses it rightly; and
a pair that the first condition accepts rightly satisfies the others, which are dropped. -/
def KernelJudges (input : Input F) : Prop :=
  match conditions input with
  | [] => True
  | condition :: dropped => ∀ l < input.leftRows, ∀ r < input.rightRows,
      if condition.misjudgedByKernel l r then
        condition.holds l r = true ∧ ∃ other ∈ dropped, other.holds l r = false
      else condition.holds l r = true → ∀ other ∈ dropped, other.holds l r = true

/-- Two valid keys that a predicate of cudf compares otherwise than SQL does. -/
def Keys.cudfErrs (keys : Keys F) (comparison : ComparisonType) (l r : Nat) : Bool :=
  match keys with
  | .FLOAT64 left right =>
      match comparison with
      | .notEqual | .distinctFrom => left l = ⊤ ∧ right r = ⊤
      | .lessThan => left l ≠ ⊤ ∧ right r = ⊤
      | .greaterThan => left l = ⊤ ∧ right r ≠ ⊤
      | .lessThanOrEqualTo => right r = ⊤
      | .greaterThanOrEqualTo => left l = ⊤
      | _ => false
  | _ => false

def Condition.misjudgedByCudf (condition : Condition F) (l r : Nat) : Bool :=
  if condition.leftValid l ∧ condition.rightValid r then
    condition.keys.cudfErrs condition.comparison l r
  else condition.selects l r ≠ condition.holds l r

/-- cudf sees all pairs that satisfy the conditions and misjudges none of them; a pair that
does not satisfy them all is not misjudged at exactly those that it fails. -/
def CudfJudges (input : Input F) : Prop :=
  (∀ l < input.leftRows, ∀ r < input.rightRows,
    (∀ condition ∈ input.planned, condition.holds l r = true) →
      l < sizeType input.leftRows ∧ r < sizeType input.rightRows) ∧
  ∀ l < sizeType input.leftRows, ∀ r < sizeType input.rightRows,
    ((∀ condition ∈ input.planned, condition.holds l r = true) →
      ∀ condition ∈ input.planned, condition.misjudgedByCudf l r = false) ∧
    ((∀ condition ∈ input.planned, condition.holds l r = !condition.misjudgedByCudf l r) →
      ∀ condition ∈ input.planned, condition.holds l r = true)

def kernelRefuses (input : Input F) : Bool :=
  (conditions input).any fun condition => conditionMode condition.comparison = none

def cudfRefuses (input : Input F) : Bool :=
  (conditions input).any fun condition =>
    (condition.obstacle input.leftRows input.rightRows).isSome

def singlePredicate (input : Input F) : Bool :=
  (input.planned.filter fun condition => !condition.comparison.isEquality).length = 1

/-- What the kernel needs of a join over two sides that are not empty. -/
def KernelRight (assertions : Bool) (input : Input F) : Prop :=
  Fits input.leftRows input.rightRows (found input) ∧ OwnEntries input ∧
    (assertions = true → ∃ l < input.leftRows, ∃ r < input.rightRows, found input l r = true) ∧
    KernelJudges input

/-- The inputs that are joined as they should be. -/
def Proper (assertions : Bool) (input : Input F) : Prop :=
  (input.rightRows ≠ 0 → ∀ condition ∈ input.planned, condition.keys.readsOffsets = false) ∧
    (input.leftRows = 0 ∨ input.rightRows = 0 ∨
      if supported input then
        kernelRefuses input = true ∨ KernelRight assertions input ∧
          (cudfRefuses input = false → singlePredicate input = true → CudfJudges input)
      else cudfRefuses input = true ∨ singlePredicate input = true ∧ CudfJudges input)

end Right

/-! ## What is misjudged -/

section Verdicts

variable {condition : Condition F} {l r : Nat}

theorem holds_valid (left : condition.leftValid l = true) (right : condition.rightValid r = true) :
    condition.holds l r =
      match condition.keys with
      | .INT64 a b => condition.comparison.compare (a l).toInt (b r).toInt
      | .FLOAT64 a b => condition.comparison.compare (a l) (b r)
      | .VARCHAR _ a b => condition.comparison.compare (a l) (b r)
      | .other _ a b => condition.comparison.compare (a l) (b r) := by
  rw [Condition.holds]
  cases condition.keys <;> simp only [cell, left, right, if_true, ComparisonType.holds_some]

theorem toInt_lt_iff {a b : BitVec 64} (signs : a.msb = b.msb) :
    a.toInt < b.toInt ↔ a.toNat < b.toNat := by
  rw [BitVec.toInt_eq_msb_cond, BitVec.toInt_eq_msb_cond, signs]
  split <;> omega

theorem toInt_lt_iff_of_ne {a b : BitVec 64} (signs : a.msb ≠ b.msb) :
    a.toInt < b.toInt ↔ ¬ a.toNat < b.toNat := by
  have ha := a.isLt
  have hb := b.isLt
  rw [BitVec.toInt_eq_msb_cond, BitVec.toInt_eq_msb_cond]
  simp only [BitVec.msb_eq_decide, ne_eq, decide_eq_decide, decide_eq_true_eq] at signs ⊢
  split <;> split <;> omega

theorem decide_le {V : Type} [LinearOrder V] (a b : V) : decide (a ≤ b) = !decide (b < a) := by
  by_cases below : b < a
  · simp [below, not_le_of_gt below]
  · simp [below, le_of_not_gt below]

theorem int64_verdict {comparison : ComparisonType} {mode : Nat}
    (known : conditionMode comparison = some mode) {left right : Nat → BitVec 64} (l r : Nat) :
    (Keys.INT64 left right : Keys F).found mode l r =
      (comparison.compare (left l).toInt (right r).toInt !=
        (Keys.INT64 left right : Keys F).kernelErrs comparison l r) := by
  have same : (left l).toInt = (right r).toInt ↔ left l = right r := BitVec.toInt_inj
  by_cases signs : (left l).msb = (right r).msb
  · have below := toInt_lt_iff signs
    have above := toInt_lt_iff signs.symm
    cases comparison <;> simp only [conditionMode, Option.some.injEq, reduceCtorEq] at known <;>
      subst known <;>
      simp [Keys.found, localFound, Keys.kernelErrs, ComparisonType.compare, same, signs, below,
        above, decide_le]
  · have below := toInt_lt_iff_of_ne signs
    have above := toInt_lt_iff_of_ne (Ne.symm signs)
    cases comparison <;> simp only [conditionMode, Option.some.injEq, reduceCtorEq] at known <;>
      subst known <;>
      simp [Keys.found, localFound, Keys.kernelErrs, ComparisonType.compare, same, signs, below,
        above, decide_le]

theorem float64_verdict {comparison : ComparisonType} {mode : Nat}
    (known : conditionMode comparison = some mode) {left right : Nat → WithTop F} (l r : Nat) :
    (Keys.FLOAT64 left right).found mode l r =
      (comparison.compare (left l) (right r) !=
        (Keys.FLOAT64 left right).kernelErrs comparison l r) := by
  cases comparison <;> simp only [conditionMode, Option.some.injEq, reduceCtorEq] at known <;>
    subst known <;>
    by_cases leftNan : left l = ⊤ <;> by_cases rightNan : right r = ⊤ <;>
    simp [Keys.found, localFound, Keys.kernelErrs, ComparisonType.compare, doubleEq, doubleLe,
      leftNan, rightNan, lt_top_iff_ne_top, decide_le, eq_comm (a := (⊤ : WithTop F))]

/-- The kernel's comparison, by what SQL says and what is misjudged. -/
theorem kernel_verdict {mode : Nat} (known : conditionMode condition.comparison = some mode)
    (typed : condition.keys.isInt64 = true ∨ condition.keys.isFloat64 = true) (l r : Nat) :
    condition.keys.found mode l r =
      (condition.holds l r != condition.misjudgedByKernel l r) := by
  rw [Condition.misjudgedByKernel, known, Option.getD_some]
  split
  case isTrue valid =>
    rw [holds_valid valid.1 valid.2]
    cases shape : condition.keys with
    | INT64 left right => exact int64_verdict known l r
    | FLOAT64 left right => exact float64_verdict known l r
    | VARCHAR rightRowIds left right => simp [shape, Keys.isInt64, Keys.isFloat64] at typed
    | other id left right => simp [shape, Keys.isInt64, Keys.isFloat64] at typed
  case isFalse =>
    cases condition.keys.found mode l r <;> cases condition.holds l r <;> decide

theorem cudfCompare_float64 {comparison : ComparisonType} (known : comparison.isOther = false)
    {left right : Nat → WithTop F} (l r : Nat) :
    (Keys.FLOAT64 left right).cudfCompare comparison l r =
      (comparison.compare (left l) (right r) !=
        (Keys.FLOAT64 left right).cudfErrs comparison l r) := by
  by_cases leftNan : left l = ⊤ <;> by_cases rightNan : right r = ⊤ <;> cases comparison <;>
    simp_all [ComparisonType.isOther, Keys.cudfCompare, Keys.cudfErrs, ComparisonType.compare,
      doubleEq, doubleLe, lt_top_iff_ne_top, eq_comm (a := (⊤ : WithTop F))]

/-- The selection of cudf, likewise. -/
theorem cudf_verdict (known : condition.comparison.isOther = false) (l r : Nat) :
    condition.selects l r = (condition.holds l r != condition.misjudgedByCudf l r) := by
  rw [Condition.misjudgedByCudf]
  split
  case isTrue valid =>
    rw [Condition.selects, holds_valid valid.1 valid.2, valid.1, Bool.true_and]
    cases shape : condition.keys with
    | FLOAT64 left right => exact cudfCompare_float64 known l r
    | INT64 left right => simp [Keys.cudfCompare, Keys.cudfErrs]
    | VARCHAR rightRowIds left right => simp [Keys.cudfCompare, Keys.cudfErrs]
    | other id left right => simp [Keys.cudfCompare, Keys.cudfErrs]
  case isFalse =>
    cases condition.selects l r <;> cases condition.holds l r <;> decide

end Verdicts

/-! ## The kernel -/

section Kernel

variable {leftRows rightRows : Nat} {found : Nat → Nat → Bool} {schedule : Schedule}

theorem rowPairs_filter (p : Nat → Nat → Bool) :
    ((List.range leftRows).flatMap fun l =>
        ((List.range rightRows).filter (p l)).map fun r => (l, r)) =
      (rowPairs leftRows rightRows).filter fun pair => p pair.1 pair.2 := by
  change _ = List.filter _
    ((List.range leftRows).flatMap fun l => (List.range rightRows).map (Prod.mk l))
  rw [List.filter_flatMap]
  refine List.flatMap_congr fun l _ => ?_
  rw [List.filter_map]
  rfl

theorem gathered_selected (runs : schedule.Runs leftRows rightRows found) :
    (gathered BLOCK_THREADS (selected leftRows rightRows found) schedule.order).Perm
      ((rowPairs leftRows rightRows).filter fun pair => found pair.1 pair.2) := by
  have positive : 0 < BLOCK_THREADS * 1 := by decide
  have tiles := gathered_tiles positive (fun _ => true) runs.blocks
  rw [List.filter_eq_self.mpr fun _ _ => rfl] at tiles
  rw [← rowPairs_filter found]
  have pairs := tiles.flatMap_right fun l =>
    ((List.range rightRows).filter (found l)).map fun r => (l, r)
  refine List.Perm.trans (List.Perm.of_eq ?_) pairs
  simp only [gathered, tileSelected, List.flatMap_assoc, List.filter_true]
  rfl

theorem count_eq_length (runs : schedule.Runs leftRows rightRows found) :
    schedule.count leftRows rightRows found =
      ((rowPairs leftRows rightRows).filter fun pair => found pair.1 pair.2).length := by
  rw [Schedule.count, count_eq, (gathered_selected runs).length_eq]

theorem arranged (leftRows rightRows : Nat) (found : Nat → Nat → Bool) :
    OffsetArrays.Arranged BLOCK_THREADS (numTiles BLOCK_THREADS 1 leftRows)
      (selected leftRows rightRows found) (stored leftRows) (offsetIndex BLOCK_THREADS) := by
  refine arranged_tiles (by decide) (by decide) fun block t empty => ?_
  rw [selected, empty, List.flatMap_nil]

/-- With entries of their own the threads write all pairs that they find. -/
theorem result_perm (own : OffsetArrays.Unshared BLOCK_THREADS (numTiles BLOCK_THREADS 1 leftRows)
      (selected leftRows rightRows found) (stored leftRows) (offsetIndex BLOCK_THREADS))
    (runs : schedule.Runs leftRows rightRows found) :
    ((List.range (schedule.count leftRows rightRows found)).map (perform schedule.writes)).Perm
      (((rowPairs leftRows rightRows).filter fun pair => found pair.1 pair.2).map some) := by
  have writes := runs.writes.trans (OffsetArrays.written_perm (arranged leftRows rightRows found)
    own runs.blocks runs.stores)
  rw [Schedule.count, count_eq, perform_gridWrites writes]
  exact (gathered_selected runs).map some

/-- The run with some orders of the blocks and of the stores. -/
def scheduled (leftRows rightRows : Nat) (found : Nat → Nat → Bool) (order : List Nat)
    (stores : List (Nat × Nat)) : Schedule where
  order := order
  stores := stores
  writes := written BLOCK_THREADS (numTiles BLOCK_THREADS 1 leftRows)
    (selected leftRows rightRows found) (stored leftRows) (offsetIndex BLOCK_THREADS)
    (perform stores)

theorem exists_schedule (leftRows rightRows : Nat) (found : Nat → Nat → Bool) :
    ∃ schedule : Schedule, schedule.Runs leftRows rightRows found :=
  ⟨scheduled leftRows rightRows found (List.range (numTiles BLOCK_THREADS 1 leftRows)) (handed
    BLOCK_THREADS (selected leftRows rightRows found) (stored leftRows) (offsetIndex BLOCK_THREADS)
    (List.range (numTiles BLOCK_THREADS 1 leftRows))),
    List.Perm.refl _, List.Perm.refl _, List.Perm.refl _⟩

/-- When every run writes at all places, the threads have entries of their own. -/
theorem own_of_written (all : ∀ schedule : Schedule, schedule.Runs leftRows rightRows found →
    ∀ place < schedule.count leftRows rightRows found, perform schedule.writes place ≠ none) :
    OffsetArrays.Unshared BLOCK_THREADS (numTiles BLOCK_THREADS 1 leftRows)
      (selected leftRows rightRows found) (stored leftRows) (offsetIndex BLOCK_THREADS) := by
  refine OffsetArrays.unshared_of_places (arranged leftRows rightRows found)
    fun order stores blocks shuffled => ?_
  have places := all (scheduled leftRows rightRows found order stores)
    ⟨blocks, shuffled, List.Perm.refl _⟩
  have length : (scheduled leftRows rightRows found order stores).writes.length =
      (gathered BLOCK_THREADS (selected leftRows rightRows found) order).length := by
    rw [← List.length_map (f := Prod.fst), scheduled, OffsetArrays.written_values]
    exact (OffsetArrays.gathered_perm blocks).length_eq.symm
  rw [← length]
  refine places_perm fun place inside => places place ?_
  rw [Schedule.count, count_eq]
  exact length ▸ inside

end Kernel

/-! ## The conditions together -/

section Conditions

section Lists

variable {K : Type} {input : Input K} {condition : Condition K}

theorem conditions_perm (input : Input K) : (conditions input).Perm input.planned :=
  ((List.reverse_perm _).append_left _).trans
    (List.filter_append_perm (fun condition => condition.comparison.isEquality) input.planned)

theorem mem_conditions : condition ∈ conditions input ↔ condition ∈ input.planned :=
  (conditions_perm input).mem_iff

theorem mode_of_accepted (accepted : kernelRefuses input = false)
    (member : condition ∈ conditions input) :
    ∃ mode, conditionMode condition.comparison = some mode := by
  have known := List.any_eq_false.mp accepted condition member
  rw [decide_eq_true_iff] at known
  exact Option.ne_none_iff_exists'.mp known

theorem typed_of_supported (same : supported input = true)
    (member : condition ∈ conditions input) :
    condition.keys.isInt64 = true ∨ condition.keys.isFloat64 = true := by
  rw [supported, Bool.or_eq_true, List.all_eq_true, List.all_eq_true] at same
  exact same.imp (fun all => all condition member) fun all => all condition member

theorem mapM_conditionMode (conditions : List (Condition K)) :
    (conditions.mapM fun condition => conditionMode condition.comparison) = none ↔
      ∃ condition ∈ conditions, conditionMode condition.comparison = none := by
  induction conditions with
  | nil => simp
  | cons condition rest ih =>
      rw [List.mapM_cons]
      cases known : conditionMode condition.comparison with
      | none => simp [known]
      | some mode =>
          cases others : rest.mapM fun condition => conditionMode condition.comparison with
          | none => simpa [known, others] using ih.mp others
          | some modes => simpa [known, others] using mt ih.mpr (by simp [others])

theorem refused_iff : ((conditions input).mapM fun condition =>
    conditionMode condition.comparison) = none ↔ kernelRefuses input = true := by
  rw [mapM_conditionMode, kernelRefuses, List.any_eq_true]
  simp only [decide_eq_true_iff]

theorem refuses_iff : cudfRefuses input = true ↔ ∃ condition ∈ conditions input,
    condition.obstacle input.leftRows input.rightRows ≠ none := by
  rw [cudfRefuses, List.any_eq_true]
  simp only [Option.isSome_iff_ne_none]

theorem passed_iff : cudfRefuses input = false ↔ ∀ condition ∈ conditions input,
    condition.obstacle input.leftRows input.rightRows = none := by
  rw [← Bool.not_eq_true, refuses_iff]
  simp

/-- The predicates of the planned conditions are those of the reordered ones. -/
theorem singlePredicate_iff :
    singlePredicate input = true ↔
      (inequalities Condition.comparison (conditions input)).length = 1 := by
  have same := (conditions_perm input).filter fun condition => !condition.comparison.isEquality
  rw [singlePredicate, decide_eq_true_iff, ← same.length_eq]
  rfl

theorem known_of_accepted (accepted : cudfRefuses input = false)
    (member : condition ∈ input.planned) : condition.comparison.isOther = false := by
  have passed := List.any_eq_false.mp accepted condition (mem_conditions.mpr member)
  by_contra other
  rw [Bool.not_eq_false] at other
  simp [Condition.obstacle, other] at passed

end Lists

variable {input : Input F}

theorem kernelJudges_iff (nonempty : input.planned ≠ []) (same : supported input = true)
    (accepted : kernelRefuses input = false) :
    (∀ l < input.leftRows, ∀ r < input.rightRows,
      found input l r = input.planned.all fun condition => condition.holds l r) ↔
      KernelJudges input := by
  cases shape : conditions input with
  | nil =>
      have none := conditions_perm input
      rw [shape] at none
      exact absurd none.nil_eq.symm nonempty
  | cons condition dropped =>
      have member : condition ∈ conditions input := by rw [shape]; exact List.mem_cons_self
      obtain ⟨mode, known⟩ := mode_of_accepted accepted member
      have verdict := kernel_verdict known (typed_of_supported same member)
      simp only [KernelJudges, shape, found, known, Option.getD_some]
      refine forall₂_congr fun l _ => forall₂_congr fun r _ => ?_
      rw [verdict l r, ← (conditions_perm input).all_eq, shape, List.all_cons]
      cases condition.holds l r <;> cases condition.misjudgedByKernel l r <;> simp

/-- A conjunction is decided rightly when a true one has no misjudged part and a false one
is not misjudged at exactly its false parts. -/
theorem verdicts_agree {C : Type} (parts : List C) (holds misjudged verdict : C → Bool)
    (each : ∀ part ∈ parts, verdict part = (holds part != misjudged part)) :
    ((∀ part ∈ parts, verdict part = true) ↔ ∀ part ∈ parts, holds part = true) ↔
      ((∀ part ∈ parts, holds part = true) → ∀ part ∈ parts, misjudged part = false) ∧
        ((∀ part ∈ parts, holds part = !misjudged part) → ∀ part ∈ parts, holds part = true) := by
  have passed : (∀ part ∈ parts, verdict part = true) ↔
      ∀ part ∈ parts, holds part = !misjudged part := by
    refine forall₂_congr fun part member => ?_
    rw [each part member]
    cases holds part <;> cases misjudged part <;> decide
  rw [passed]
  constructor
  · intro same
    refine ⟨fun all part member => ?_, same.mp⟩
    have split := same.mpr all part member
    rwa [all part member, eq_comm, Bool.not_eq_true'] at split
  · rintro ⟨right, wrong⟩
    refine ⟨wrong, fun all part member => ?_⟩
    rw [all part member, right all part member, Bool.not_false]

/-- The pairs of the rows that cudf sees and that it selects. -/
def selectedByCudf (input : Input F) : List (Nat × Nat) :=
  (rowPairs (sizeType input.leftRows) (sizeType input.rightRows)).filter fun pair =>
    input.planned.all fun condition => condition.selects pair.1 pair.2

theorem cudfJudges_iff (accepted : cudfRefuses input = false) :
    (selectedByCudf input).Perm (exactPairs input) ↔ CudfJudges input := by
  have pair (l r : Nat) := verdicts_agree input.planned (fun condition => condition.holds l r)
    (fun condition => condition.misjudgedByCudf l r) (fun condition => condition.selects l r)
    fun condition member => cudf_verdict (known_of_accepted accepted member) l r
  have left : sizeType input.leftRows ≤ input.leftRows := Nat.mod_le _ _
  have right : sizeType input.rightRows ≤ input.rightRows := Nat.mod_le _ _
  rw [selectedByCudf, exactPairs, List.perm_ext_iff_of_nodup ((rowPairs_nodup _ _).filter _)
    ((rowPairs_nodup _ _).filter _), CudfJudges]
  simp only [List.mem_filter, Prod.forall, mem_rowPairs, List.all_eq_true, ← pair]
  constructor
  · intro same
    constructor
    · intro l hl r hr all
      exact ((same l r).mpr ⟨⟨hl, hr⟩, all⟩).1
    · intro l hl r hr
      have same := same l r
      simpa only [hl, hr, hl.trans_le left, hr.trans_le right, true_and] using same
  · rintro ⟨seen, same⟩ l r
    constructor
    · rintro ⟨⟨hl, hr⟩, all⟩
      exact ⟨⟨hl.trans_le left, hr.trans_le right⟩, (same l hl r hr).mp all⟩
    · rintro ⟨⟨hl, hr⟩, all⟩
      have inside := seen l hl r hr all
      exact ⟨inside, (same l inside.1 r inside.2).mpr all⟩

end Conditions

/-! ## The join -/

section Join

variable {input : Input F} {assertions : Bool} {schedule : Schedule}

theorem exactPairs_eq_nil (empty : input.leftRows = 0 ∨ input.rightRows = 0) :
    exactPairs input = [] := by
  rw [exactPairs, rowPairs_eq_nil empty, List.filter_nil]

theorem map_some_perm_iff {pairs others : List (Nat × Nat)} :
    (pairs.map some).Perm (others.map some) ↔ pairs.Perm others :=
  List.map_perm_map_iff (Option.some_injective _)

theorem count_pos_iff
    (runs : schedule.Runs input.leftRows input.rightRows (found input)) :
    schedule.count input.leftRows input.rightRows (found input) ≠ 0 ↔
      ∃ l < input.leftRows, ∃ r < input.rightRows, found input l r = true := by
  rw [count_eq_length runs, ← Nat.pos_iff_ne_zero, List.length_pos_iff_exists_mem]
  constructor
  · rintro ⟨⟨l, r⟩, member⟩
    obtain ⟨inside, chosen⟩ := List.mem_filter.mp member
    obtain ⟨hl, hr⟩ := mem_rowPairs.mp inside
    exact ⟨l, hl, r, hr, chosen⟩
  · rintro ⟨l, hl, r, hr, chosen⟩
    exact ⟨(l, r), List.mem_filter.mpr ⟨mem_rowPairs.mpr ⟨hl, hr⟩, chosen⟩⟩

/-- A run of the kernel whose threads have entries of their own. -/
theorem run_exact_iff (nonempty : input.planned ≠ []) (same : supported input = true)
    (accepted : kernelRefuses input = false) (rows : ¬ (input.leftRows = 0 ∨ input.rightRows = 0))
    (own : OwnEntries input)
    (runs : schedule.Runs input.leftRows input.rightRows (found input)) :
    Exact (nestedLoopJoin assertions schedule input.leftRows input.rightRows (found input)) input ↔
      KernelRight assertions input := by
  rw [nestedLoopJoin, if_neg rows, KernelRight, ← kernelJudges_iff nonempty same accepted,
    ← count_pos_iff runs, and_iff_right own]
  by_cases fits : Fits input.leftRows input.rightRows (found input)
  · rw [if_neg (not_not.mpr fits)]
    by_cases nothing : assertions = true ∧
        schedule.count input.leftRows input.rightRows (found input) = 0
    · rw [if_pos nothing]
      simp [Exact, nothing.1, nothing.2]
    · have some : assertions = true →
          schedule.count input.leftRows input.rightRows (found input) ≠ 0 :=
        fun checked zero => nothing ⟨checked, zero⟩
      rw [if_neg nothing, and_iff_right fits, and_iff_right some, Exact,
        (result_perm own runs).congr_left, map_some_perm_iff, exactPairs, filter_perm_filter]
  · rw [if_pos fits]
    simp [Exact, fits]

/-- An exact result has a pair at each place. -/
theorem places_of_exact (rows : ¬ (input.leftRows = 0 ∨ input.rightRows = 0))
    (exact : Exact (nestedLoopJoin assertions schedule input.leftRows input.rightRows
      (found input)) input) :
    ∀ place < schedule.count input.leftRows input.rightRows (found input),
      perform schedule.writes place ≠ none := by
  intro place inside missing
  rw [nestedLoopJoin, if_neg rows] at exact
  split_ifs at exact
  · exact exact
  · have member : none ∈ (exactPairs input).map some :=
      List.Perm.mem_iff exact |>.mp (List.mem_map.mpr ⟨place, List.mem_range.mpr inside, missing⟩)
    simp at member
  · exact exact

/-- The kernel's results on two sides that are not empty. -/
theorem kernel_exact_iff (nonempty : input.planned ≠ []) (same : supported input = true)
    (accepted : kernelRefuses input = false)
    (rows : ¬ (input.leftRows = 0 ∨ input.rightRows = 0)) :
    (∀ schedule : Schedule, schedule.Runs input.leftRows input.rightRows (found input) →
      Exact (nestedLoopJoin assertions schedule input.leftRows input.rightRows (found input))
        input) ↔ KernelRight assertions input := by
  constructor
  · intro all
    have own : OwnEntries input :=
      own_of_written fun schedule runs => places_of_exact rows (all schedule runs)
    obtain ⟨schedule, runs⟩ := exists_schedule input.leftRows input.rightRows (found input)
    exact (run_exact_iff nonempty same accepted rows own runs).mp (all schedule runs)
  · intro right schedule runs
    exact (run_exact_iff nonempty same accepted rows right.2.1 runs).mpr right

/-- cudf's result on two sides that are not empty. -/
theorem cudf_pairs (cudf : Cudf) (rows : ¬ (input.leftRows = 0 ∨ input.rightRows = 0))
    (accepted : cudfRefuses input = false) (single : singlePredicate input = true) :
    ∃ pairs, cudfMixedOrConditionalInnerJoin cudf input = .returned pairs ∧
      pairs.Perm (selectedByCudf input) := by
  obtain ⟨condition, alone⟩ := List.length_eq_one_iff.mp (singlePredicate_iff.mp single)
  have all (l r : Nat) : (input.planned.all fun condition => condition.selects l r) =
      ((equalities Condition.comparison (conditions input)).all
        (fun condition => condition.selects l r) && condition.selects l r) := by
    rw [Bool.eq_iff_iff, Bool.and_eq_true, ← (conditions_perm input).all_eq, List.all_eq_true,
      List.all_eq_true, forall_split Condition.comparison, alone, List.forall_mem_singleton]
  rw [cudfMixedOrConditionalInnerJoin,
    mixed_single (fun empty => rows empty.symm) (passed_iff.mp accepted) alone]
  by_cases none : equalities Condition.comparison (conditions input) = []
  · rw [if_pos none]
    refine ⟨_, rfl, (cudf.conditionalInnerJoin_perm _ _ _).trans (List.Perm.of_eq ?_)⟩
    simp only [selectedByCudf, all, none, List.all_nil, Bool.true_and]
  · rw [if_neg none]
    refine ⟨_, rfl, (cudf.mixedInnerJoin_perm _ _ _ _).trans (List.Perm.of_eq ?_)⟩
    simp only [selectedByCudf, all]

theorem cudf_undefined (cudf : Cudf) (rows : ¬ (input.leftRows = 0 ∨ input.rightRows = 0))
    (accepted : cudfRefuses input = false) (several : singlePredicate input = false) :
    cudfMixedOrConditionalInnerJoin cudf input = .undefined :=
  mixed_undefined (fun empty => rows empty.symm) (passed_iff.mp accepted) fun one =>
    Bool.noConfusion (several.symm.trans (singlePredicate_iff.mpr one))

theorem cudf_raised (cudf : Cudf) (rows : ¬ (input.leftRows = 0 ∨ input.rightRows = 0))
    (refused : cudfRefuses input = true) :
    ∃ message, cudfMixedOrConditionalInnerJoin cudf input = .raised message :=
  mixed_raised (fun empty => rows empty.symm) (refuses_iff.mp refused)

theorem kernel_raised (assertions : Bool) (schedule : Schedule)
    (refused : kernelRefuses input = true) :
    ∃ message, resolveTypeNestedLoopJoin assertions schedule input = .raised message := by
  rw [resolveTypeNestedLoopJoin, refused_iff.mpr refused]
  exact ⟨_, rfl⟩

theorem kernel_accepted (assertions : Bool) (schedule : Schedule)
    (accepted : kernelRefuses input = false) :
    resolveTypeNestedLoopJoin assertions schedule input =
      nestedLoopJoin assertions schedule input.leftRows input.rightRows (found input) := by
  rw [resolveTypeNestedLoopJoin]
  split
  case h_1 none =>
    rw [refused_iff.mp none] at accepted
    cases accepted
  case h_2 => rfl

/-- Where the kernel is right, cudf agrees with it exactly if it is right too. -/
theorem agree_iff (cudf : Cudf) (rows : ¬ (input.leftRows = 0 ∨ input.rightRows = 0))
    {own : List (Option (Nat × Nat))}
    (ran : resolveTypeNestedLoopJoin assertions schedule input = .returned own)
    (exact : own.Perm ((exactPairs input).map some)) :
    Agree assertions cudf schedule input ↔
      (cudfRefuses input = false → singlePredicate input = true → CudfJudges input) := by
  constructor
  · intro agree accepted single
    obtain ⟨others, again, selected⟩ := cudf_pairs cudf rows accepted single
    have same := exact.symm.trans (agree own _ ran again)
    rw [map_some_perm_iff] at same
    exact (cudfJudges_iff accepted).mp (selected.symm.trans same.symm)
  · intro judges own' others ran' again
    obtain rfl : own = own' := Outcome.returned.inj (ran.symm.trans ran')
    cases accepted : cudfRefuses input with
    | true =>
        obtain ⟨message, raised⟩ := cudf_raised cudf rows accepted
        cases raised.symm.trans again
    | false =>
        cases single : singlePredicate input with
        | false => cases (cudf_undefined cudf rows accepted single).symm.trans again
        | true =>
            obtain ⟨pairs, right, selected⟩ := cudf_pairs cudf rows accepted single
            obtain rfl := Outcome.returned.inj (right.symm.trans again)
            have same := selected.trans ((cudfJudges_iff accepted).mpr (judges accepted single))
            exact exact.trans (same.symm.map some)

/-- A join with an empty side returns no pairs or raises. -/
theorem empty_exact (cudf : Cudf) (empty : input.leftRows = 0 ∨ input.rightRows = 0) :
    Exact (if supported input then resolveTypeNestedLoopJoin assertions schedule input
      else (cudfMixedOrConditionalInnerJoin cudf input).map (List.map some)) input := by
  have nothing : Exact (.returned []) input := by simp [Exact, exactPairs_eq_nil empty]
  split
  · cases accepted : kernelRefuses input with
    | true =>
        obtain ⟨message, raised⟩ := kernel_raised assertions schedule accepted
        rw [raised, Exact]
        trivial
    | false => rwa [kernel_accepted _ _ accepted, nestedLoopJoin, if_pos empty]
  · rwa [cudfMixedOrConditionalInnerJoin, mixed_empty empty.symm]

theorem empty_agree (cudf : Cudf) (empty : input.leftRows = 0 ∨ input.rightRows = 0) :
    Agree assertions cudf schedule input := by
  intro own others ran again
  rw [cudfMixedOrConditionalInnerJoin, mixed_empty empty.symm] at again
  cases accepted : kernelRefuses input with
  | true =>
      obtain ⟨message, raised⟩ := kernel_raised assertions schedule accepted
      cases raised.symm.trans ran
  | false =>
      rw [kernel_accepted _ _ accepted, nestedLoopJoin, if_pos empty] at ran
      cases ran
      cases again
      exact List.Perm.refl _

/-- A cudf that returns the pairs in order. -/
def orderedCudf : Cudf where
  conditionalInnerJoin leftRows rightRows predicate :=
    (rowPairs leftRows rightRows).filter fun pair => predicate pair.1 pair.2
  mixedInnerJoin leftRows rightRows same predicate :=
    (rowPairs leftRows rightRows).filter fun pair => same pair.1 pair.2 && predicate pair.1 pair.2
  conditionalInnerJoin_perm _ _ _ := List.Perm.refl _
  mixedInnerJoin_perm _ _ _ _ := List.Perm.refl _

/-- Keys that are all INT64 or all FLOAT64. -/
theorem supported_iff (nonempty : input.planned ≠ []) (same : supported input = true)
    (rows : ¬ (input.leftRows = 0 ∨ input.rightRows = 0)) :
    (∀ (cudf : Cudf) (schedule : Schedule),
      schedule.Runs input.leftRows input.rightRows (found input) →
        Exact (resolveTypeNestedLoopJoin assertions schedule input) input ∧
          Agree assertions cudf schedule input) ↔
      kernelRefuses input = true ∨ KernelRight assertions input ∧
        (cudfRefuses input = false → singlePredicate input = true → CudfJudges input) := by
  cases accepted : kernelRefuses input with
  | true =>
      refine iff_of_true (fun cudf schedule _ => ?_) (.inl rfl)
      obtain ⟨message, raised⟩ := kernel_raised assertions schedule accepted
      simp [raised, Exact, Agree]
  | false =>
      rw [or_iff_right (by decide), ← kernel_exact_iff nonempty same accepted rows]
      simp only [← kernel_accepted assertions _ accepted]
      -- an exact outcome is a result, and then cudf has to return the same
      have agreed (cudf : Cudf) (schedule : Schedule)
          (exact : Exact (resolveTypeNestedLoopJoin assertions schedule input) input) :
          Agree assertions cudf schedule input ↔
            (cudfRefuses input = false → singlePredicate input = true → CudfJudges input) := by
        cases outcome : resolveTypeNestedLoopJoin assertions schedule input with
        | returned own =>
            rw [outcome] at exact
            exact agree_iff cudf rows outcome exact
        | raised message =>
            rw [kernel_accepted _ _ accepted, nestedLoopJoin] at outcome
            split_ifs at outcome
        | aborted => rw [outcome] at exact; exact exact.elim
        | undefined => rw [outcome] at exact; exact exact.elim
      constructor
      · intro all
        refine ⟨fun schedule runs => (all orderedCudf schedule runs).1, ?_⟩
        obtain ⟨schedule, runs⟩ := exists_schedule input.leftRows input.rightRows (found input)
        obtain ⟨exact, agree⟩ := all orderedCudf schedule runs
        exact (agreed orderedCudf schedule exact).mp agree
      · rintro ⟨exact, judges⟩ cudf schedule runs
        have exact := exact schedule runs
        exact ⟨exact, (agreed cudf schedule exact).mpr judges⟩

/-- All other keys. -/
theorem unsupported_iff (cudf : Cudf) (rows : ¬ (input.leftRows = 0 ∨ input.rightRows = 0)) :
    Exact ((cudfMixedOrConditionalInnerJoin cudf input).map (List.map some)) input ↔
      cudfRefuses input = true ∨ singlePredicate input = true ∧ CudfJudges input := by
  cases accepted : cudfRefuses input with
  | true =>
      obtain ⟨message, raised⟩ := cudf_raised cudf rows accepted
      simp [raised, Exact, Outcome.map]
  | false =>
      rw [or_iff_right (by decide)]
      cases single : singlePredicate input with
      | false => simp [cudf_undefined cudf rows accepted single, Exact, Outcome.map]
      | true =>
          obtain ⟨pairs, ran, selected⟩ := cudf_pairs cudf rows accepted single
          rw [ran, Outcome.map, Exact, map_some_perm_iff, selected.congr_left,
            cudfJudges_iff accepted]
          simp

/-- 130 rows on the left, whose second key is the row itself, and two rows on the right that match
the rows of the second block; the other condition holds for all pairs. -/
def twoBlocks : Input Int where
  planned :=
    [⟨.lessThan, .INT64 (fun l => BitVec.ofNat 64 l) fun _ => 200, fun _ => true, fun _ => true⟩,
      ⟨.equal, .INT64 (fun l => BitVec.ofNat 64 l) fun r => BitVec.ofNat 64 (r + 128),
        fun _ => true, fun _ => true⟩]
  leftRows := 130
  rightRows := 2

/-- One left and one right row with an INT64 key each. -/
def singleRows (comparison : ComparisonType) (left right : BitVec 64) : Input Int where
  planned := [⟨comparison, .INT64 (fun _ => left) fun _ => right, fun _ => true, fun _ => true⟩]
  leftRows := 1
  rightRows := 1

end Join

end NestedLoopJoin
