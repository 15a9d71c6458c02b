import Mathlib
import SiriusGpu.FallibleMaps
import SiriusGpu.GpuExpressions

/-!
# Execution of a projection

`GpuExpressionExecutor::Execute`. A reference passes its column through. An expression that is
skipped leaves a column without rows; the result of any other has the rows cudf returns.
-/

namespace ProjectionExecution

open GpuMemory (Exception Bytes)
open GpuColumns (GPUColumnType)
open ResultCollector (LogicalType)
open ColumnValues GpuExpressions FallibleMaps

section Model

mutual

/-- Whether the references of an expression are bound to one of `width` columns. -/
def bound (width : Nat) : Expression → Bool
  | .between input lower upper => bound width input && bound width lower && bound width upper
  | .case whenExpr thenExpr elseExpr =>
    bound width whenExpr && bound width thenExpr && bound width elseExpr
  | .cast child _ => bound width child
  | .comparison _ left right => bound width left && bound width right
  | .conjunction _ children => boundLoop width children
  | .constant _ => true
  | .function _ children _ => boundLoop width children
  | .operator _ children => boundLoop width children
  | .reference index => index < width

def boundLoop (width : Nat) : List Expression → Bool
  | [] => true
  | child :: rest => bound width child && boundLoop width rest

end

/-- An item of a projection over `width` columns. -/
structure Item (width : Nat) where
  expr : Expression
  returnType : LogicalType
  inside : bound width expr = true

def convertLogicalTypeToColumnType : LogicalType → Except Exception GPUColumnType
  | .smallint => .ok .int16
  | .integer => .ok .int32
  | .bigint => .ok .int64
  | .hugeint => .ok .int128
  | .float => .ok .float32
  | .double => .ok .float64
  | .boolean => .ok .boolean
  | .date => .ok .date
  | .timestampSec => .ok .timestampSec
  | .timestampMs => .ok .timestampMs
  | .timestamp => .ok .timestampUs
  | .timestampNs => .ok .timestampNs
  | .varchar => .ok .varchar
  | .decimal width scale => .ok (.decimal width scale)
  | .uuid | .other => .error (.invalidInput
      "Unsupported duckdb column type in `convertLogicalTypeToColumnType`")

variable (cudf : Cudf) (r : Relation)

/-- An expression that is not a reference. -/
def executeExpression (expr : Expression) (returnType : LogicalType) :
    Except Exception Column := do
  let type ← convertLogicalTypeToColumnType returnType
  if skipped r.columns expr then .ok (emptyColumn type)
  else do
    let result ← execute cudf r.columns (setInputColumns r.columns).inputCount.toNat expr
    let cudfReturnType ← getCudfType returnType
    let result ← if sameId result.type cudfReturnType then .ok result
      else cudf.run (.cast cudfReturnType) [result]
    setFromCudfColumn result false

def executeItem (item : Item r.columns.length) : Except Exception Column :=
  match item.expr with
  | .reference index =>
    match r.columns[index]? with
    | some c => .ok c
    | none => .error .fault
  | expr => executeExpression cudf r expr item.returnType

def executeItems (items : List (Item r.columns.length)) : Except Exception (List Column) :=
  items.mapM (executeItem cudf r)

end Model

section Meaning

variable (r : Relation) (sqlValue : Expression → Nat → Option Bytes)

def isReference : Expression → Bool
  | .reference _ => true
  | _ => false

/-- The column of an expression has all rows, and the values of one over an entirely NULL
column are those of SQL. -/
structure Evaluates (expr : Expression) (c : Column) : Prop where
  rowCount : c.rowCount = r.rowCount
  values : hasNullLeaf r.columns expr = true → ∀ row < r.rowCount, c.cell row = sqlValue expr row

/-- The output of an item: a reference is its column, anything else is evaluated. -/
def Projects (item : Item r.columns.length) (c : Column) : Prop :=
  match item.expr with
  | .reference index => r.columns[index]? = some c
  | expr => Evaluates r sqlValue expr c

/-- The rows can be counted by cudf, are counted, and the expression has no leaf without
data. -/
structure Countable (expr : Expression) : Prop where
  small : r.rowCount ≤ int32Max
  counted : (setInputColumns r.columns).inputCount ≠ 0
  full : hasNullLeaf r.columns expr = false

def Safe (items : List (Item r.columns.length)) : Prop :=
  ∀ item ∈ items, isReference item.expr = true ∨ r.rowCount = 0 ∨ Countable r item.expr

end Meaning

section Lengths

variable {cudf : Cudf} {r : Relation} {expr : Expression} {returnType : LogicalType} {c : Column}

theorem sizeType_eq {n : Nat} (small : n ≤ int32Max) : sizeType n = n := by
  rw [int32Max] at small
  rw [sizeType, BitVec.toInt_ofNat', Int.bmod_def]
  omega

theorem sizeType_le (n : Nat) : (sizeType n).toNat ≤ int32Max := by
  have bound := BitVec.toInt_lt (x := BitVec.ofNat 32 n)
  rw [sizeType, int32Max]
  omega

/-- The input count is that of the rows cudf can count. -/
theorem counted (some : (setInputColumns r.columns).inputCount ≠ 0) :
    Counted r.columns (setInputColumns r.columns).inputCount.toNat := by
  intro c member data small
  have rows := r.even c member data
  have count : (setInputColumns r.columns).inputCount = sizeType r.rowCount := by
    rcases inputCount_cases r with zero | ⟨-, count⟩
    · exact absurd zero some
    · exact count
  rw [count, rows, sizeType_eq (by rwa [← rows]), Int.toNat_natCast]

theorem executeExpression_skipped (skip : skipped r.columns expr = true)
    (run : executeExpression cudf r expr returnType = .ok c) : c.rowCount = 0 := by
  obtain ⟨type, -, run⟩ := bind_ok_iff.mp run
  simp only [skip, if_true] at run
  cases run
  rfl

/-- An expression that is executed has the rows of its result. -/
theorem executeExpression_executed (even : LengthPreserving cudf)
    (skip : skipped r.columns expr = false)
    (run : executeExpression cudf r expr returnType = .ok c) :
    ∃ result, execute cudf r.columns (setInputColumns r.columns).inputCount.toNat expr =
      .ok result ∧ c.rowCount = result.values.length := by
  obtain ⟨type, -, run⟩ := bind_ok_iff.mp run
  simp only [skip, Bool.false_eq_true, if_false] at run
  obtain ⟨result, ran, run⟩ := bind_ok_iff.mp run
  obtain ⟨cudfReturnType, -, run⟩ := bind_ok_iff.mp run
  refine ⟨result, ran, ?_⟩
  split at run
  · exact setFromCudfColumn_rowCount run
  · obtain ⟨converted, cast, run⟩ := bind_ok_iff.mp run
    rw [setFromCudfColumn_rowCount run]
    exact (even _ _ _ cast result List.mem_cons_self).symm

end Lengths

section Projection

variable {cudf : Cudf} {r : Relation} {sqlValue : Expression → Nat → Option Bytes}
  {expr : Expression} {returnType : LogicalType} {c : Column}

theorem skipped_countable (countable : Countable r expr) : skipped r.columns expr = false := by
  simp [skipped, countable.counted, countable.full]

theorem counted_of_executed (skip : skipped r.columns expr = false) :
    (setInputColumns r.columns).inputCount ≠ 0 := by
  intro zero
  simp [skipped, zero] at skip

/-- Without rows nothing is executed. -/
theorem skipped_empty (none : r.rowCount = 0) : skipped r.columns expr = true := by
  rcases inputCount_cases r with zero | ⟨positive, -⟩
  · simp [skipped, zero]
  · rw [none] at positive
    exact absurd positive (by decide)

theorem evaluates_of_countable (even : LengthPreserving cudf) (countable : Countable r expr)
    (run : executeExpression cudf r expr returnType = .ok c) : Evaluates r sqlValue expr c := by
  obtain ⟨result, ran, rows⟩ :=
    executeExpression_executed even (skipped_countable countable) run
  have length := execute_sized even (counted countable.counted) expr (Or.inr countable.full)
    result ran
  constructor
  · rcases inputCount_cases r with zero | ⟨-, count⟩
    · exact absurd zero countable.counted
    · rw [rows, length, countable.full, count, sizeType_eq countable.small]
      rfl
  · intro null
    rw [countable.full] at null
    cases null

theorem evaluates_of_empty (none : r.rowCount = 0)
    (run : executeExpression cudf r expr returnType = .ok c) : Evaluates r sqlValue expr c := by
  constructor
  · rw [executeExpression_skipped (skipped_empty none) run, none]
  · intro _ row inside
    omega

/-- The rows of an expression that is evaluated are counted, or there are none. -/
theorem countable_of_evaluates (even : LengthPreserving cudf) (checked : Checked r.columns expr)
    (run : executeExpression cudf r expr returnType = .ok c)
    (evaluates : Evaluates r sqlValue expr c) : r.rowCount = 0 ∨ Countable r expr := by
  by_cases none : r.rowCount = 0
  · exact Or.inl none
  have some : skipped r.columns expr = false := by
    by_contra skip
    rw [Bool.not_eq_false] at skip
    exact none (by rw [← evaluates.rowCount, executeExpression_skipped skip run])
  obtain ⟨result, ran, rows⟩ := executeExpression_executed even some run
  have input := counted_of_executed some
  have length := execute_sized even (counted input) expr checked result ran
  rw [evaluates.rowCount] at rows
  have full : hasNullLeaf r.columns expr = false := by
    by_contra null
    rw [Bool.not_eq_false] at null
    rw [null, if_pos rfl] at length
    exact none (rows.trans length)
  refine Or.inr ⟨?_, input, full⟩
  rcases inputCount_cases r with zero | ⟨-, count⟩
  · exact absurd zero input
  · rw [full, count] at length
    rw [rows, length]
    exact sizeType_le _

variable (sqlValue) in
theorem executeItem_iff (even : LengthPreserving cudf) {item : Item r.columns.length}
    (run : executeItem cudf r item = .ok c) :
    ((isReference item.expr = true ∨ r.rowCount = 0 ∨ Countable r item.expr) →
        Projects r sqlValue item c) ∧
      (Checked r.columns item.expr → Projects r sqlValue item c →
        isReference item.expr = true ∨ r.rowCount = 0 ∨ Countable r item.expr) := by
  rw [executeItem] at run
  rw [Projects]
  cases expr : item.expr with
  | reference index =>
      simp only [expr] at run ⊢
      constructor
      · intro _
        split at run
        · cases run
          assumption
        · cases run
      · exact fun _ _ => Or.inl rfl
  | _ =>
      simp only [expr] at run ⊢
      constructor
      · rintro (reference | none | countable)
        · cases reference
        · exact evaluates_of_empty none run
        · exact evaluates_of_countable even countable run
      · exact fun checked evaluates => Or.inr (countable_of_evaluates even checked run evaluates)

/-- When a projection that returns is right: an expression has all rows if they can be counted
and no column it reads is entirely NULL. Of the others only one in which an error check reads
such a column can be. -/
theorem projects_iff_safe (even : LengthPreserving cudf) {items : List (Item r.columns.length)}
    {out : List Column} (run : executeItems cudf r items = .ok out) :
    (Safe r items → List.Forall₂ (Projects r sqlValue) items out) ∧
      (List.Forall₂ (Projects r sqlValue) items out →
        (∀ item ∈ items, Checked r.columns item.expr) → Safe r items) := by
  have results := mapM_ok_iff.mp run
  rw [executeItems] at run
  clear run
  induction results with
  | nil =>
      constructor
      · exact fun _ => .nil
      · exact fun _ _ => nofun
  | @cons item c rest _ ran _ ih =>
      obtain ⟨right, safe⟩ := executeItem_iff sqlValue even ran
      constructor
      · intro all
        refine .cons (right (all item List.mem_cons_self)) (ih.1 fun later member => ?_)
        exact all later (List.mem_cons_of_mem _ member)
      · intro projected checked
        obtain ⟨head, tail⟩ := List.forall₂_cons.mp projected
        intro later member
        rcases List.mem_cons.mp member with rfl | member
        · exact safe (checked later List.mem_cons_self) head
        · exact ih.2 tail (fun other inside => checked other (List.mem_cons_of_mem _ inside))
            later member

end Projection

section Witness

/-- The calls of cudf, of which only the test for NULL is made. -/
def testNull : Operation → List CudfColumn → Except Exception CudfColumn
  | .isNull, [a] => .ok ⟨.boolean, a.values.map fun value => some [if value.isNone then 1 else 0]⟩
  | _, _ => .error (.internal "cudf: Unsupported operator.")

def nullTests : Cudf where
  run := testNull
  scalar value := do
    let type ← getCudfType value.type
    .ok ⟨type, value.value⟩

theorem nullTests_even : LengthPreserving nullTests := by
  intro op args out run a member
  change testNull op args = .ok out at run
  unfold testNull at run
  split at run
  · cases run
    rw [List.mem_singleton.mp member]
    simp
  · cases run

def oneRow (entries : Option (List Entry))
    (long : ∀ es, entries = some es → es.length = 1) : Column where
  type := .int32
  entries := entries
  columnLength := 1
  rowIds := some [0]
  numBytes := 4
  isUnique := false
  long := long
  inside := by
    rintro es same _ ⟨⟩ i member
    rw [long es same, List.mem_singleton.mp member]
    exact Nat.one_pos

def oneRowRelation (c : Column) (count : c.rowCount = 1) (type : c.type = .int32) : Relation where
  columns := [c]
  rowCount := 1
  some := List.cons_ne_nil _ _
  even := fun c' member _ => by rw [List.mem_singleton.mp member, count]
  empty := fun c' member _ => Or.inr (by rw [List.mem_singleton.mp member, count])
  measured := fun c' member string => by
    rw [List.mem_singleton.mp member, type] at string
    cases string

def sevenRelation : Relation :=
  oneRowRelation (oneRow (some [⟨[7, 0, 0, 0], true⟩]) (by rintro _ ⟨⟩; rfl)) rfl rfl

def nullRelation : Relation := oneRowRelation (oneRow none nofun) rfl rfl

/-- `x IS NULL` of the only column. -/
def isNullItem : Item 1 where
  expr := .operator .isNull [.reference 0]
  returnType := .boolean
  inside := by simp [bound, boundLoop]

theorem seven_is_not_null : executeItems nullTests sevenRelation [isNullItem] =
    .ok [plainColumn .boolean [⟨[0], true⟩] 1 false] := by
  rfl

theorem null_has_no_rows : executeItems nullTests nullRelation [isNullItem] =
    .ok [emptyColumn .boolean] := by
  rfl

/-- The test of a column that has a value has its row. -/
theorem seven_projects : List.Forall₂ (Projects sevenRelation fun _ _ => none) [isNullItem]
    [plainColumn .boolean [⟨[0], true⟩] 1 false] := by
  refine (projects_iff_safe nullTests_even seven_is_not_null).1 fun item member => ?_
  rw [List.mem_singleton.mp member]
  refine Or.inr (Or.inr ?_)
  constructor
  · decide
  · decide
  · decide

/-- The test of a column that is entirely NULL has no rows. -/
theorem null_test_without_rows : ∃ out, executeItems nullTests nullRelation [isNullItem] = .ok out ∧
    ¬ List.Forall₂ (Projects nullRelation fun _ _ => some [1]) [isNullItem] out := by
  refine ⟨_, null_has_no_rows, fun projected => ?_⟩
  obtain ⟨evaluates, -⟩ := List.forall₂_cons.mp projected
  exact absurd evaluates.rowCount (by decide)

end Witness

end ProjectionExecution
