import Mathlib
import SiriusGpu.JoinConditions

/-!
# Inner hash joins through cudf

`cudf_hash_inner_join` and `cudf_mixed_or_conditional_inner_join`, as `Execute`
calls them. The cudf entry points are a parameter: each returns the pairs of rows
that its null equality and its predicate select, in any order.

A key column is a function from row numbers to values, with `none` for NULL.
Decimal keys of two widths belong to one logical type, so that the cast to the
wider one keeps the values. The freeing of the temporary columns is not modelled.
-/

namespace CudfInnerJoin

open JoinConditions

/-- A cudf type id; a decimal's is given by its size in bytes. -/
inductive TypeId where
  | decimal (size : Nat)
  | other (id : Nat)
  deriving DecidableEq

structure ColumnView (V : Type) where
  type : TypeId
  value : Nat → Option V

structure TableView (V : Type) where
  numRows : Nat
  columns : List (ColumnView V)

inductive NullEquality where
  | EQUAL
  | UNEQUAL
  deriving DecidableEq

inductive AstOperator where
  | notEqual
  | less
  | greater
  | lessEqual
  | greaterEqual
  deriving DecidableEq

/-- A predicate over a column of the left and one of the right table. -/
structure Operation where
  op : AstOperator
  left : Nat
  right : Nat

section Cudf

variable {V : Type} [LinearOrder V]

def NullEquality.same (nulls : NullEquality) (a b : Option V) : Bool :=
  match nulls with
  | .EQUAL => a = b
  | .UNEQUAL => a = b ∧ a ≠ none

def rowsEqual (nulls : NullEquality) (probe build : TableView V) (l r : Nat) : Bool :=
  (probe.columns.zip build.columns).all fun keys => nulls.same (keys.1.value l) (keys.2.value r)

def AstOperator.apply (op : AstOperator) (a b : V) : Bool :=
  match op with
  | .notEqual => a ≠ b
  | .less => a < b
  | .greater => b < a
  | .lessEqual => a ≤ b
  | .greaterEqual => b ≤ a

/-- The value of a predicate; a NULL operand makes it NULL. -/
def Operation.eval (operation : Operation) (probe build : TableView V) (l r : Nat) :
    Option Bool := do
  let a ← (probe.columns[operation.left]?).bind fun column => column.value l
  let b ← (build.columns[operation.right]?).bind fun column => column.value r
  some (operation.op.apply a b)

/-- Both operands have one type. -/
def Operation.typed (operation : Operation) (probe build : TableView V) : Bool :=
  (probe.columns[operation.left]?).map ColumnView.type =
    (build.columns[operation.right]?).map ColumnView.type

def sameTypes (probe build : TableView V) : Bool :=
  probe.columns.map ColumnView.type = build.columns.map ColumnView.type

def selectedPairs (probe build : TableView V) (p : Nat → Nat → Bool) : List (Nat × Nat) :=
  (rowPairs probe.numRows build.numRows).filter fun pair => p pair.1 pair.2

/-- No two rows of the table are equal, where a NULL equals a NULL. -/
def DistinctRows (table : TableView V) : Prop :=
  ∀ r < table.numRows, ∀ r' < table.numRows, rowsEqual .EQUAL table table r r' = true → r = r'

end Cudf

/-- The join functions of cudf with what their documentation promises: the selected
pairs for operands of equal types, an exception for other ones. The distinct hash
join promises nothing for a build table with equal rows. -/
structure Cudf (V : Type) [LinearOrder V] where
  hashJoin : NullEquality → TableView V → TableView V → Except String (List (Nat × Nat))
  distinctHashJoin : NullEquality → TableView V → TableView V → Except String (List (Nat × Nat))
  conditionalInnerJoin : TableView V → TableView V → Operation → Except String (List (Nat × Nat))
  mixedInnerJoin : NullEquality → TableView V → TableView V → TableView V → TableView V →
    Operation → Except String (List (Nat × Nat))
  hashJoin_ok : ∀ nulls build probe, sameTypes probe build = true →
    ∃ pairs, hashJoin nulls build probe = .ok pairs ∧
      pairs.Perm (selectedPairs probe build (rowsEqual nulls probe build))
  distinctHashJoin_ok : ∀ nulls build probe, sameTypes probe build = true →
    ∃ pairs, distinctHashJoin nulls build probe = .ok pairs ∧
      (DistinctRows build → pairs.Perm (selectedPairs probe build (rowsEqual nulls probe build)))
  conditionalInnerJoin_ok : ∀ probe build predicate, predicate.typed probe build = true →
    ∃ pairs, conditionalInnerJoin probe build predicate = .ok pairs ∧
      pairs.Perm (selectedPairs probe build fun l r =>
        predicate.eval probe build l r = some true)
  conditionalInnerJoin_error : ∀ probe build predicate, predicate.typed probe build = false →
    ∃ e, conditionalInnerJoin probe build predicate = .error e
  mixedInnerJoin_ok : ∀ nulls probeEqual buildEqual probe build predicate,
    sameTypes probeEqual buildEqual = true → predicate.typed probe build = true →
    ∃ pairs, mixedInnerJoin nulls probeEqual buildEqual probe build predicate = .ok pairs ∧
      pairs.Perm (selectedPairs probe build fun l r =>
        rowsEqual nulls probeEqual buildEqual l r && predicate.eval probe build l r = some true)
  mixedInnerJoin_error : ∀ nulls probeEqual buildEqual probe build predicate,
    (sameTypes probeEqual buildEqual && predicate.typed probe build) = false →
    ∃ e, mixedInnerJoin nulls probeEqual buildEqual probe build predicate = .error e

/-- One join condition with its materialized keys. -/
structure Condition (V : Type) where
  comparison : ComparisonType
  probeKey : ColumnView V
  buildKey : ColumnView V

structure JoinInput (V : Type) where
  conditions : List (Condition V)
  probeRows : Nat
  buildRows : Nat
  uniqueBuildKeys : Bool

section Join

variable {V : Type} [LinearOrder V]

/-- The key columns of one condition as the hash join compares them. -/
def castKey (condition : Condition V) : Except String (ColumnView V × ColumnView V) :=
  let build := condition.buildKey
  let probe := condition.probeKey
  if build.type = probe.type then .ok (build, probe)
  else
    match build.type, probe.type with
    | .decimal buildSize, .decimal probeSize =>
        if buildSize < probeSize then .ok ({ build with type := probe.type }, probe)
        else .ok (build, { probe with type := build.type })
    | _, _ => .error "Build and probe key type mismatch in cudf_hash_inner_join"

def cudfHashInnerJoin (cudf : Cudf V) (input : JoinInput V) :
    Except String (List (Nat × Nat)) :=
  if input.buildRows = 0 ∨ input.probeRows = 0 then .ok []
  else do
    let keys ← input.conditions.mapM castKey
    let build : TableView V := ⟨input.buildRows, keys.map Prod.fst⟩
    let probe : TableView V := ⟨input.probeRows, keys.map Prod.snd⟩
    if input.uniqueBuildKeys then cudf.distinctHashJoin .EQUAL build probe
    else cudf.hashJoin .EQUAL build probe

def astOperator : ComparisonType → Option AstOperator
  | .notEqual => some .notEqual
  | .distinctFrom => some .notEqual
  | .lessThan => some .less
  | .greaterThan => some .greater
  | .lessThanOrEqualTo => some .lessEqual
  | .greaterThanOrEqualTo => some .greaterEqual
  | _ => none

def Condition.obstacle (condition : Condition V) : Option String :=
  if condition.comparison.isEquality ∨ (astOperator condition.comparison).isSome then none
  else some "Unsupported comparison type in cudf_mixed_join"

/-- The predicate of a condition on the first column of either table. -/
def Condition.operation (condition : Condition V) : Operation :=
  ⟨(astOperator condition.comparison).getD .notEqual, 0, 0⟩

def cudfMixedOrConditionalInnerJoin (cudf : Cudf V) (input : JoinInput V) :
    Outcome (List (Nat × Nat)) :=
  JoinConditions.cudfMixedOrConditionalInnerJoin Condition.comparison Condition.obstacle
    (fun condition => cudf.conditionalInnerJoin ⟨input.probeRows, [condition.probeKey]⟩
      ⟨input.buildRows, [condition.buildKey]⟩ condition.operation)
    (fun equal condition => cudf.mixedInnerJoin .EQUAL
      ⟨input.probeRows, equal.map Condition.probeKey⟩
      ⟨input.buildRows, equal.map Condition.buildKey⟩ ⟨input.probeRows, [condition.probeKey]⟩
      ⟨input.buildRows, [condition.buildKey]⟩ condition.operation)
    input.buildRows input.probeRows input.conditions

def onlyEqualities (input : JoinInput V) : Bool :=
  input.conditions.all fun condition => condition.comparison.isEquality

def INT32_MAX : Nat := 2 ^ 31 - 1

/-- The inner join of `Execute`. -/
def innerJoin (cudf : Cudf V) (input : JoinInput V) : Outcome (List (Nat × Nat)) :=
  if input.conditions = [] then .raised "index out of range"
  else if INT32_MAX < input.buildRows ∨ INT32_MAX < input.probeRows then
    .raised "Column length greater than INT32_MAX is not supported"
  else if onlyEqualities input then .ofExcept (cudfHashInnerJoin cudf input)
  else cudfMixedOrConditionalInnerJoin cudf input

/-- The condition on a pair of rows in SQL. -/
def Condition.holds (condition : Condition V) (l r : Nat) : Bool :=
  condition.comparison.holds (condition.probeKey.value l) (condition.buildKey.value r)

/-- The pairs of rows that satisfy all conditions. -/
def exactPairs (input : JoinInput V) : List (Nat × Nat) :=
  (rowPairs input.probeRows input.buildRows).filter fun pair =>
    input.conditions.all fun condition => condition.holds pair.1 pair.2

/-- The condition as cudf is asked for it: equal keys, with a NULL equal to a NULL, or
a predicate that no NULL fulfils. -/
def Condition.selects (condition : Condition V) (l r : Nat) : Bool :=
  if condition.comparison.isEquality then
    condition.probeKey.value l = condition.buildKey.value r
  else
    match condition.probeKey.value l, condition.buildKey.value r with
    | some a, some b => condition.comparison.compare a b
    | _, _ => false

def Condition.castable (condition : Condition V) : Bool :=
  condition.buildKey.type = condition.probeKey.type ||
    match condition.buildKey.type, condition.probeKey.type with
    | .decimal _, .decimal _ => true
    | _, _ => false

/-- At most one condition is not an equality, so that its operands are still there. -/
def OnePredicate (input : JoinInput V) : Prop :=
  input.buildRows ≠ 0 → input.probeRows ≠ 0 →
    (inequalities Condition.comparison input.conditions).length ≤ 1

/-- The input passes the checks of the join and of cudf. -/
def Accepted (input : JoinInput V) : Prop :=
  input.conditions ≠ [] ∧ input.buildRows ≤ INT32_MAX ∧ input.probeRows ≤ INT32_MAX ∧
    (input.buildRows = 0 ∨ input.probeRows = 0 ∨
      if onlyEqualities input then ∀ condition ∈ input.conditions, condition.castable = true
      else (∀ condition ∈ input.conditions, condition.comparison.isOther = false) ∧
        (OnePredicate input → ∀ condition ∈ input.conditions,
          condition.buildKey.type = condition.probeKey.type))

def buildTable (input : JoinInput V) : TableView V :=
  ⟨input.buildRows, input.conditions.map Condition.buildKey⟩

/-- A pair that is selected has no NULL at a COMPARE_EQUAL condition, and one that
satisfies all conditions has none at a COMPARE_DISTINCT_FROM condition. -/
def NullsAgree (input : JoinInput V) : Prop :=
  ∀ l < input.probeRows, ∀ r < input.buildRows,
    ((∀ condition ∈ input.conditions, condition.selects l r = true) →
      ∀ condition ∈ input.conditions, condition.comparison = .equal →
        condition.probeKey.value l ≠ none) ∧
    ((∀ condition ∈ input.conditions, condition.holds l r = true) →
      ∀ condition ∈ input.conditions, condition.comparison = .distinctFrom →
        condition.probeKey.value l ≠ none ∧ condition.buildKey.value r ≠ none)

/-- The distinct hash join is only used on build rows that differ. -/
def DistinctWhereUsed (input : JoinInput V) : Prop :=
  onlyEqualities input = true → input.uniqueBuildKeys = true → input.probeRows ≠ 0 →
    DistinctRows (buildTable input)

variable {input : JoinInput V} {cudf : Cudf V} {l r : Nat}

namespace Condition

variable {condition : Condition V}

theorem holds_of_selects (selected : condition.selects l r = true)
    (present : condition.comparison = .equal → condition.probeKey.value l ≠ none) :
    condition.holds l r = true := by
  obtain ⟨comparison, probe, build⟩ := condition
  simp only [selects, holds] at selected present ⊢
  cases hp : probe.value l <;> cases hb : build.value r <;> cases comparison <;>
    simp_all [ComparisonType.holds, ComparisonType.isEquality, ComparisonType.compare]

theorem selects_of_holds (satisfied : condition.holds l r = true)
    (present : condition.comparison = .distinctFrom →
      condition.probeKey.value l ≠ none ∧ condition.buildKey.value r ≠ none) :
    condition.selects l r = true := by
  obtain ⟨comparison, probe, build⟩ := condition
  simp only [selects, holds] at satisfied present ⊢
  cases hp : probe.value l <;> cases hb : build.value r <;> cases comparison <;>
    simp_all [ComparisonType.holds, ComparisonType.isEquality, ComparisonType.compare]

/-- No NULL satisfies COMPARE_EQUAL. -/
theorem present_of_holds (satisfied : condition.holds l r = true)
    (equal : condition.comparison = .equal) : condition.probeKey.value l ≠ none := by
  intro null
  simp only [holds, equal, null] at satisfied
  cases hb : condition.buildKey.value r <;> simp [hb, ComparisonType.holds] at satisfied

/-- No NULL passes the predicate of COMPARE_DISTINCT_FROM. -/
theorem present_of_selects (selected : condition.selects l r = true)
    (distinct : condition.comparison = .distinctFrom) :
    condition.probeKey.value l ≠ none ∧ condition.buildKey.value r ≠ none := by
  simp only [selects, distinct, ComparisonType.isEquality] at selected
  cases hp : condition.probeKey.value l <;> cases hb : condition.buildKey.value r <;>
    simp [hp, hb] at selected ⊢

end Condition

def requested (input : JoinInput V) : List (Nat × Nat) :=
  (rowPairs input.probeRows input.buildRows).filter fun pair =>
    input.conditions.all fun condition => condition.selects pair.1 pair.2

theorem requested_perm_exact_iff :
    (requested input).Perm (exactPairs input) ↔ NullsAgree input := by
  rw [requested, exactPairs, filter_perm_filter]
  constructor
  · intro same l hl r hr
    have same := same l hl r hr
    rw [Bool.eq_iff_iff, List.all_eq_true, List.all_eq_true] at same
    constructor
    · intro selected condition member
      exact Condition.present_of_holds (same.mp selected condition member)
    · intro satisfied condition member
      exact Condition.present_of_selects (same.mpr satisfied condition member)
  · intro agree l hl r hr
    have ⟨equal, distinct⟩ := agree l hl r hr
    rw [Bool.eq_iff_iff, List.all_eq_true, List.all_eq_true]
    constructor
    · intro selected condition member
      exact Condition.holds_of_selects (selected condition member)
        (equal selected condition member)
    · intro satisfied condition member
      exact Condition.selects_of_holds (satisfied condition member)
        (distinct satisfied condition member)

end Join

/-! ## The hash join -/

section Keys

variable {V : Type}

/-- The type both keys of a condition have after the cast. -/
def Condition.keyType (condition : Condition V) : TypeId :=
  match condition.buildKey.type, condition.probeKey.type with
  | .decimal buildSize, .decimal probeSize => .decimal (max buildSize probeSize)
  | type, _ => type

def Condition.keys (condition : Condition V) : ColumnView V × ColumnView V :=
  ({ condition.buildKey with type := condition.keyType },
    { condition.probeKey with type := condition.keyType })

theorem castKey_eq (condition : Condition V) :
    (condition.castable = true → castKey condition = .ok condition.keys) ∧
      (condition.castable = false → ∃ e, castKey condition = .error e) := by
  obtain ⟨comparison, ⟨probeType, probe⟩, buildType, build⟩ := condition
  cases buildType <;> cases probeType <;>
    simp only [castKey, Condition.castable, Condition.keys, Condition.keyType] <;> grind

theorem mapM_castKey_ok {conditions : List (Condition V)}
    (castable : ∀ condition ∈ conditions, condition.castable = true) :
    conditions.mapM castKey = .ok (conditions.map Condition.keys) := by
  induction conditions with
  | nil => rfl
  | cons condition rest ih =>
      have head := (castKey_eq condition).1 (castable condition List.mem_cons_self)
      have tail := ih fun other member => castable other (List.mem_cons_of_mem _ member)
      rw [List.mapM_cons, head, tail]
      rfl

theorem mapM_castKey_error {conditions : List (Condition V)}
    (refused : ∃ condition ∈ conditions, condition.castable = false) :
    ∃ e, conditions.mapM castKey = .error e := by
  induction conditions with
  | nil =>
      obtain ⟨_, member, _⟩ := refused
      cases member
  | cons condition rest ih =>
      cases castable : condition.castable with
      | false =>
          obtain ⟨e, failed⟩ := (castKey_eq condition).2 castable
          exact ⟨e, by rw [List.mapM_cons, failed]; rfl⟩
      | true =>
          obtain ⟨other, member, uncastable⟩ := refused
          have later : other ∈ rest := by
            rcases List.mem_cons.mp member with rfl | later
            · simp [castable] at uncastable
            · exact later
          obtain ⟨e, failed⟩ := ih ⟨other, later, uncastable⟩
          exact ⟨e, by rw [List.mapM_cons, (castKey_eq condition).1 castable, failed]; rfl⟩

theorem sameTypes_map (probe build : Condition V → ColumnView V) (probeRows buildRows : Nat)
    (conditions : List (Condition V)) :
    sameTypes ⟨probeRows, conditions.map probe⟩ ⟨buildRows, conditions.map build⟩ = true ↔
      ∀ condition ∈ conditions, (probe condition).type = (build condition).type := by
  simp [sameTypes]

end Keys

section HashJoin

variable {V : Type} [LinearOrder V] {input : JoinInput V} {cudf : Cudf V}

/-- The row equality of two tables made of the conditions' keys. -/
theorem rowsEqual_map (nulls : NullEquality) (probe build : Condition V → ColumnView V)
    (probeRows buildRows : Nat) (conditions : List (Condition V)) (l r : Nat) :
    rowsEqual nulls ⟨probeRows, conditions.map probe⟩ ⟨buildRows, conditions.map build⟩ l r =
      conditions.all fun condition =>
        nulls.same ((probe condition).value l) ((build condition).value r) := by
  rw [rowsEqual, List.zip_map', List.all_map]
  rfl

theorem distinctRows_keys :
    DistinctRows ⟨input.buildRows, input.conditions.map fun condition => condition.keys.1⟩ ↔
      DistinctRows (buildTable input) := by
  simp only [DistinctRows, buildTable, rowsEqual_map, Condition.keys]

/-- The tables of the hash join and what their rows agree on. -/
theorem selectedPairs_keys (only : onlyEqualities input = true) :
    selectedPairs ⟨input.probeRows, input.conditions.map fun condition => condition.keys.2⟩
        ⟨input.buildRows, input.conditions.map fun condition => condition.keys.1⟩
        (rowsEqual .EQUAL
          ⟨input.probeRows, input.conditions.map fun condition => condition.keys.2⟩
          ⟨input.buildRows, input.conditions.map fun condition => condition.keys.1⟩) =
      requested input := by
  have each : ∀ condition ∈ input.conditions, condition.comparison.isEquality = true := by
    simpa [onlyEqualities] using only
  simp only [selectedPairs, requested, rowsEqual_map]
  congr 1
  funext pair
  rw [Bool.eq_iff_iff, List.all_eq_true, List.all_eq_true]
  refine forall₂_congr fun condition member => ?_
  rw [Condition.selects, if_pos (each condition member)]
  rfl

theorem cudfHashInnerJoin_ok (cudf : Cudf V) (only : onlyEqualities input = true)
    (rows : ¬ (input.buildRows = 0 ∨ input.probeRows = 0))
    (castable : ∀ condition ∈ input.conditions, condition.castable = true) :
    ∃ pairs, cudfHashInnerJoin cudf input = .ok pairs ∧
      ((input.uniqueBuildKeys = true → DistinctRows (buildTable input)) →
        pairs.Perm (requested input)) := by
  have types := (sameTypes_map (fun condition => condition.keys.2)
    (fun condition => condition.keys.1)
    input.probeRows input.buildRows input.conditions).mpr fun _ _ => rfl
  rw [cudfHashInnerJoin, if_neg rows, mapM_castKey_ok castable, ← selectedPairs_keys only]
  simp only [bind, Except.bind, List.map_map, Function.comp_def]
  cases unique : input.uniqueBuildKeys with
  | false =>
      obtain ⟨pairs, ran, exact⟩ := cudf.hashJoin_ok .EQUAL _ _ types
      exact ⟨pairs, ran, fun _ => exact⟩
  | true =>
      obtain ⟨pairs, ran, exact⟩ := cudf.distinctHashJoin_ok .EQUAL _ _ types
      exact ⟨pairs, ran, fun distinct => exact (distinctRows_keys.mpr (distinct rfl))⟩

end HashJoin

/-! ## The mixed join -/

section MixedJoin

variable {V : Type} [LinearOrder V] {input : JoinInput V} {cudf : Cudf V} {l r : Nat}
  {condition : Condition V}

omit [LinearOrder V] in
theorem obstacle_eq_none :
    condition.obstacle = none ↔ condition.comparison.isOther = false := by
  rw [Condition.obstacle]
  cases condition.comparison <;>
    simp [ComparisonType.isEquality, ComparisonType.isOther, astOperator]

omit [LinearOrder V] in
theorem operation_typed (probeRows buildRows : Nat) :
    condition.operation.typed ⟨probeRows, [condition.probeKey]⟩ ⟨buildRows, [condition.buildKey]⟩ =
      true ↔ condition.buildKey.type = condition.probeKey.type := by
  simp [Operation.typed, Condition.operation, eq_comm]

/-- The operator of a condition applied to its two keys. -/
theorem astOperator_apply (inequality : condition.comparison.isEquality = false)
    (known : condition.comparison.isOther = false) (a b : V) :
    ((astOperator condition.comparison).getD .notEqual).apply a b =
      condition.comparison.compare a b := by
  cases shape : condition.comparison <;>
    simp [shape, ComparisonType.isEquality, ComparisonType.isOther, astOperator,
      AstOperator.apply, ComparisonType.compare] at inequality known ⊢

theorem operation_eval (inequality : condition.comparison.isEquality = false)
    (known : condition.comparison.isOther = false) (probeRows buildRows : Nat) :
    condition.operation.eval ⟨probeRows, [condition.probeKey]⟩ ⟨buildRows, [condition.buildKey]⟩
      l r = some true ↔ condition.selects l r = true := by
  rw [Condition.selects, inequality, if_neg Bool.false_ne_true]
  cases hp : condition.probeKey.value l <;> cases hb : condition.buildKey.value r <;>
    simp [Operation.eval, Condition.operation, hp, hb, astOperator_apply inequality known]

theorem equalities_selects :
    rowsEqual .EQUAL
        ⟨input.probeRows,
          (equalities Condition.comparison input.conditions).map Condition.probeKey⟩
        ⟨input.buildRows,
          (equalities Condition.comparison input.conditions).map Condition.buildKey⟩ l r = true ↔
      ∀ condition ∈ equalities Condition.comparison input.conditions,
        condition.selects l r = true := by
  rw [rowsEqual_map, List.all_eq_true]
  refine forall₂_congr fun condition member => ?_
  rw [Condition.selects, if_pos (List.mem_filter.mp member).2]
  rfl

omit [LinearOrder V] in
/-- Of several conditions that are not all equalities one is a predicate. -/
theorem exists_predicate (mixed : onlyEqualities input = false)
    (rows : ¬ (input.buildRows = 0 ∨ input.probeRows = 0)) (one : OnePredicate input) :
    ∃ condition, inequalities Condition.comparison input.conditions = [condition] := by
  rw [not_or] at rows
  refine List.length_eq_one_iff.mp (le_antisymm (one rows.1 rows.2) ?_)
  rw [onlyEqualities, List.all_eq_false] at mixed
  obtain ⟨condition, member, inequality⟩ := mixed
  exact List.length_pos_iff_exists_mem.mpr
    ⟨condition, List.mem_filter.mpr ⟨member, by simpa using inequality⟩⟩

theorem mixed_ok (cudf : Cudf V) (mixed : onlyEqualities input = false)
    (rows : ¬ (input.buildRows = 0 ∨ input.probeRows = 0)) (one : OnePredicate input)
    (known : ∀ condition ∈ input.conditions, condition.comparison.isOther = false)
    (types : ∀ condition ∈ input.conditions,
      condition.buildKey.type = condition.probeKey.type) :
    ∃ pairs, cudfMixedOrConditionalInnerJoin cudf input = .returned pairs ∧
      pairs.Perm (requested input) := by
  obtain ⟨condition, alone⟩ := exists_predicate mixed rows one
  have here : condition ∈ inequalities Condition.comparison input.conditions := by
    rw [alone]
    exact List.mem_singleton.mpr rfl
  obtain ⟨member, inequality⟩ := List.mem_filter.mp here
  rw [Bool.not_eq_true'] at inequality
  have typed := (operation_typed input.probeRows input.buildRows).mpr (types condition member)
  have evaluated {l r : Nat} := operation_eval (l := l) (r := r) inequality (known condition member)
    input.probeRows input.buildRows
  rw [cudfMixedOrConditionalInnerJoin, mixed_single rows
    (fun other member => obstacle_eq_none.mpr (known other member)) alone]
  by_cases none : equalities Condition.comparison input.conditions = []
  · rw [if_pos none]
    obtain ⟨pairs, ran, exact⟩ := cudf.conditionalInnerJoin_ok _ _ _ typed
    refine ⟨pairs, by rw [ran]; rfl, exact.trans ?_⟩
    rw [selectedPairs, requested, filter_perm_filter]
    intro l _ r _
    rw [Bool.eq_iff_iff, decide_eq_true_iff, evaluated, List.all_eq_true,
      forall_split Condition.comparison, none, alone]
    simp
  · rw [if_neg none]
    have sameEqual := (sameTypes_map Condition.probeKey Condition.buildKey input.probeRows
      input.buildRows (equalities Condition.comparison input.conditions)).mpr
        fun other member => (types other (List.mem_of_mem_filter member)).symm
    obtain ⟨pairs, ran, exact⟩ := cudf.mixedInnerJoin_ok .EQUAL _ _ _ _ _ sameEqual typed
    refine ⟨pairs, by rw [ran]; rfl, exact.trans ?_⟩
    rw [selectedPairs, requested, filter_perm_filter]
    intro l _ r _
    have split : (∀ condition ∈ input.conditions, condition.selects l r = true) ↔ _ :=
      forall_split Condition.comparison
    rw [alone, List.forall_mem_singleton] at split
    rw [Bool.eq_iff_iff, Bool.and_eq_true, decide_eq_true_iff, equalities_selects, evaluated,
      List.all_eq_true, split]

theorem mixed_several (rows : ¬ (input.buildRows = 0 ∨ input.probeRows = 0))
    (several : ¬ OnePredicate input)
    (known : ∀ condition ∈ input.conditions, condition.comparison.isOther = false) :
    cudfMixedOrConditionalInnerJoin cudf input = .undefined := by
  refine mixed_undefined rows (fun other member => obstacle_eq_none.mpr (known other member)) ?_
  intro alone
  exact several fun _ _ => alone.le

theorem mixed_error (mixed : onlyEqualities input = false)
    (rows : ¬ (input.buildRows = 0 ∨ input.probeRows = 0))
    (improper : ¬ ((∀ condition ∈ input.conditions, condition.comparison.isOther = false) ∧
      (OnePredicate input → ∀ condition ∈ input.conditions,
        condition.buildKey.type = condition.probeKey.type))) :
    ∃ e, cudfMixedOrConditionalInnerJoin cudf input = .raised e := by
  by_cases known : ∀ condition ∈ input.conditions, condition.comparison.isOther = false
  · rw [and_iff_right known, Classical.not_imp] at improper
    obtain ⟨one, differ⟩ := improper
    obtain ⟨condition, alone⟩ := exists_predicate mixed rows one
    rw [forall_split Condition.comparison, alone, List.forall_mem_singleton]
      at differ
    rw [cudfMixedOrConditionalInnerJoin, mixed_single rows
      (fun other member => obstacle_eq_none.mpr (known other member)) alone]
    by_cases none : equalities Condition.comparison input.conditions = []
    · rw [if_pos none]
      obtain ⟨e, failed⟩ := cudf.conditionalInnerJoin_error ⟨input.probeRows, [condition.probeKey]⟩
        ⟨input.buildRows, [condition.buildKey]⟩ condition.operation <| by
          rw [Bool.eq_false_iff, Ne, operation_typed]
          exact fun same => differ ⟨by simp [none], same⟩
      exact ⟨e, by rw [failed]; rfl⟩
    · rw [if_neg none]
      obtain ⟨e, failed⟩ := cudf.mixedInnerJoin_error .EQUAL
        ⟨input.probeRows,
          (equalities Condition.comparison input.conditions).map Condition.probeKey⟩
        ⟨input.buildRows,
          (equalities Condition.comparison input.conditions).map Condition.buildKey⟩
        ⟨input.probeRows, [condition.probeKey]⟩
        ⟨input.buildRows, [condition.buildKey]⟩ condition.operation <| by
          rw [Bool.eq_false_iff, Ne, Bool.and_eq_true, operation_typed, sameTypes_map]
          exact fun same => differ ⟨fun other member => (same.1 other member).symm, same.2⟩
      exact ⟨e, by rw [failed]; rfl⟩
  · simp only [not_forall] at known
    obtain ⟨condition, member, unknown⟩ := known
    exact mixed_raised rows ⟨condition, member, mt obstacle_eq_none.mp unknown⟩

end MixedJoin

/-! ## The pairs of the inner join -/

section InnerJoin

variable {V : Type} [LinearOrder V] {input : JoinInput V} {cudf : Cudf V}

theorem requested_eq_nil (empty : input.buildRows = 0 ∨ input.probeRows = 0) :
    requested input = [] := by
  rw [requested, rowPairs_eq_nil empty.symm, List.filter_nil]

theorem exactPairs_nodup (input : JoinInput V) : (exactPairs input).Nodup :=
  (rowPairs_nodup _ _).filter _

theorem innerJoin_ok (cudf : Cudf V) (accepted : Accepted input) (one : OnePredicate input) :
    ∃ pairs, innerJoin cudf input = .returned pairs ∧
      (DistinctWhereUsed input → pairs.Perm (requested input)) := by
  obtain ⟨some, build, probe, keys⟩ := accepted
  rw [innerJoin, if_neg some, if_neg (by omega)]
  by_cases empty : input.buildRows = 0 ∨ input.probeRows = 0
  · refine ⟨[], ?_, fun _ => by rw [requested_eq_nil empty]⟩
    split
    · rw [cudfHashInnerJoin, if_pos empty]
      rfl
    · exact mixed_empty empty
  · rw [or_iff_right fun h => empty (.inl h), or_iff_right fun h => empty (.inr h)] at keys
    cases only : onlyEqualities input with
    | true =>
        rw [if_pos only] at keys
        rw [if_pos rfl]
        obtain ⟨pairs, ran, exact⟩ := cudfHashInnerJoin_ok cudf only empty keys
        refine ⟨pairs, by rw [ran]; rfl,
          fun distinct => exact fun unique => distinct only unique ?_⟩
        exact fun zero => empty (.inr zero)
    | false =>
        rw [if_neg (by simp [only])] at keys
        rw [if_neg Bool.false_ne_true]
        obtain ⟨pairs, ran, exact⟩ := mixed_ok cudf only empty one keys.1 (keys.2 one)
        exact ⟨pairs, ran, fun _ => exact⟩

/-- Two predicates are evaluated without their operands. -/
theorem innerJoin_several (cudf : Cudf V) (accepted : Accepted input)
    (several : ¬ OnePredicate input) : innerJoin cudf input = .undefined := by
  obtain ⟨some, build, probe, keys⟩ := accepted
  have more := several
  simp only [OnePredicate, Classical.not_imp, not_le] at more
  obtain ⟨buildRows, probeRows, more⟩ := more
  have mixed : onlyEqualities input = false := by
    obtain ⟨condition, member⟩ := List.length_pos_iff_exists_mem.mp (lt_trans Nat.one_pos more)
    obtain ⟨member, inequality⟩ := List.mem_filter.mp member
    exact List.all_eq_false.mpr ⟨condition, member, by simpa using inequality⟩
  rw [or_iff_right buildRows, or_iff_right probeRows, if_neg (by simp [mixed])] at keys
  rw [innerJoin, if_neg some, if_neg (by omega), mixed, if_neg Bool.false_ne_true]
  exact mixed_several (not_or.mpr ⟨buildRows, probeRows⟩) several keys.1

/-- Every other input raises an exception. -/
theorem innerJoin_error (refused : ¬ Accepted input) :
    ∃ e, innerJoin cudf input = .raised e := by
  rw [innerJoin]
  by_cases none : input.conditions = []
  · exact ⟨_, if_pos none⟩
  · rw [if_neg none]
    by_cases long : INT32_MAX < input.buildRows ∨ INT32_MAX < input.probeRows
    · exact ⟨_, if_pos long⟩
    · rw [if_neg long]
      have empty : ¬ (input.buildRows = 0 ∨ input.probeRows = 0) := by
        intro empty
        refine refused ⟨none, by omega, by omega, ?_⟩
        rcases empty with build | probe
        · exact .inl build
        · exact .inr (.inl probe)
      have keys := fun keys => refused ⟨none, by omega, by omega, .inr (.inr keys)⟩
      cases only : onlyEqualities input with
      | true =>
          rw [if_pos rfl, cudfHashInnerJoin, if_neg empty]
          simp only [only, if_true] at keys
          have refusing : ∃ condition ∈ input.conditions, condition.castable = false := by
            by_contra castable
            refine keys fun condition member => eq_true_of_ne_false fun uncastable => ?_
            exact castable ⟨condition, member, uncastable⟩
          obtain ⟨e, failed⟩ := mapM_castKey_error refusing
          exact ⟨e, by rw [failed]; rfl⟩
      | false =>
          rw [if_neg Bool.false_ne_true]
          rw [only, if_neg Bool.false_ne_true] at keys
          exact mixed_error only empty keys

open Classical in
/-- A cudf whose distinct hash join fails on build rows that are equal. -/
noncomputable def strictCudf (V : Type) [LinearOrder V] : Cudf V where
  hashJoin nulls build probe :=
    if sameTypes probe build then .ok (selectedPairs probe build (rowsEqual nulls probe build))
    else .error "Mismatch in joining column data types"
  distinctHashJoin nulls build probe :=
    if DistinctRows build then
      .ok (selectedPairs probe build (rowsEqual nulls probe build))
    else .ok [(0, 0), (0, 0)]
  conditionalInnerJoin probe build predicate :=
    if predicate.typed probe build then
      .ok (selectedPairs probe build fun l r => predicate.eval probe build l r = some true)
    else .error "non-matching operand types"
  mixedInnerJoin nulls probeEqual buildEqual probe build predicate :=
    if sameTypes probeEqual buildEqual && predicate.typed probe build then
      .ok (selectedPairs probe build fun l r =>
        rowsEqual nulls probeEqual buildEqual l r && predicate.eval probe build l r = some true)
    else .error "non-matching operand types"
  hashJoin_ok nulls build probe types := ⟨_, if_pos types, List.Perm.refl _⟩
  distinctHashJoin_ok nulls build probe types := by
    by_cases distinct : DistinctRows build
    · exact ⟨_, if_pos distinct, fun _ => List.Perm.refl _⟩
    · exact ⟨_, if_neg distinct, fun h => absurd h distinct⟩
  conditionalInnerJoin_ok probe build predicate typed := ⟨_, if_pos typed, List.Perm.refl _⟩
  conditionalInnerJoin_error probe build predicate untyped :=
    ⟨_, if_neg (Bool.eq_false_iff.mp untyped)⟩
  mixedInnerJoin_ok nulls probeEqual buildEqual probe build predicate types typed :=
    ⟨_, if_pos (Bool.and_eq_true_iff.mpr ⟨types, typed⟩), List.Perm.refl _⟩
  mixedInnerJoin_error nulls probeEqual buildEqual probe build predicate untyped :=
    ⟨_, if_neg (Bool.eq_false_iff.mp untyped)⟩

theorem distinct_of_strict (accepted : Accepted input) {pairs : List (Nat × Nat)}
    (ran : innerJoin (strictCudf V) input = .returned pairs)
    (exact : pairs.Perm (exactPairs input)) :
    DistinctWhereUsed input := by
  intro only unique probeRows
  by_contra equal
  obtain ⟨some, build, probe, keys⟩ := accepted
  have buildRows : input.buildRows ≠ 0 := by
    intro zero
    refine equal fun r hr => ?_
    simp [buildTable, zero] at hr
  have castable := keys.resolve_left buildRows |>.resolve_left probeRows
  rw [if_pos only] at castable
  rw [innerJoin, if_neg some, if_neg (by omega), if_pos only, cudfHashInnerJoin,
    if_neg (by simp [buildRows, probeRows]), mapM_castKey_ok castable] at ran
  simp only [bind, Except.bind, unique, if_true, strictCudf, List.map_map,
    Function.comp_def] at ran
  rw [if_neg (mt distinctRows_keys.mp equal), Outcome.ofExcept, Outcome.returned.injEq] at ran
  have nodup := exact.nodup_iff.mpr (exactPairs_nodup input)
  simp [← ran] at nodup

/-- Four rows on either side, which are compared in a column of each kind; the third of them
holds a NULL on the left. -/
def fourRows : JoinInput Int where
  conditions :=
    [⟨.equal, ⟨.other 0, fun row => [some 1, some 2, none, some 2][row]?.join⟩,
      ⟨.other 0, fun row => [some 2, some 1, some 2, some 3][row]?.join⟩⟩,
    ⟨.notDistinctFrom, ⟨.decimal 4, fun row => [none, some 4, none, some 4][row]?.join⟩,
      ⟨.decimal 4, fun row => [some 4, none, some 4, none][row]?.join⟩⟩,
    ⟨.lessThan, ⟨.other 1, fun row => [some 5, none, some 0, some 6][row]?.join⟩,
      ⟨.other 1, fun row => [some 9, some 7, none, some 8][row]?.join⟩⟩]
  probeRows := 4
  buildRows := 4
  uniqueBuildKeys := true

/-- One probe row and one build row with the key `probe` and the key `build`. -/
def singleRows (comparison : ComparisonType) (probe build : Option Int) : JoinInput Int where
  conditions := [⟨comparison, ⟨.other 0, fun _ => probe⟩, ⟨.other 0, fun _ => build⟩⟩]
  probeRows := 1
  buildRows := 1
  uniqueBuildKeys := false

end InnerJoin

end CudfInnerJoin
