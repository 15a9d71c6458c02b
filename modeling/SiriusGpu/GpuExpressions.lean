import Mathlib
import SiriusGpu.ColumnValues
import SiriusGpu.CudfColumns
import SiriusGpu.FallibleMaps
import SiriusGpu.ResultCollector

/-!
# Execution of expressions

The expression executor runs an expression tree on whole columns, one call of cudf for each
operation. cudf is a parameter: its operations take columns of one length and return a column
of that length.
-/

namespace GpuExpressions

open GpuMemory (Exception Bytes)
open GpuColumns (GPUColumnType decimalTypeSize)
open CudfColumns (unsupportedType)
open Materialize (materializable)
open ResultCollector (LogicalType)
open ColumnValues FallibleMaps

section Syntax

/-- A constant; without value it is NULL. -/
structure Constant where
  type : LogicalType
  value : Option Bytes
  deriving DecidableEq

inductive ComparisonType
  | equal | notEqual | lessThan | greaterThan | lessThanOrEqualTo | greaterThanOrEqualTo
  | distinctFrom | notDistinctFrom
  deriving DecidableEq

inductive ConjunctionType
  | and | or
  deriving DecidableEq

inductive OperatorType
  | compareIn | compareNotIn | coalesce | not | isNull | isNotNull | other
  deriving DecidableEq

/-- The classes of expressions the executor runs. A CASE with several checks is one whose ELSE
is the CASE with the checks after the first: the executor goes through both in one order. -/
inductive Expression
  | between (input lower upper : Expression)
  | case (whenExpr thenExpr elseExpr : Expression)
  | cast (child : Expression) (returnType : LogicalType)
  | comparison (type : ComparisonType) (left right : Expression)
  | conjunction (type : ConjunctionType) (children : List Expression)
  | constant (value : Constant)
  | function (name : String) (children : List Expression) (returnType : LogicalType)
  | operator (type : OperatorType) (children : List Expression)
  | reference (index : Nat)

def Expression.asConstant : Expression → Option Constant
  | .constant value => some value
  | _ => none

def errorFuncStr : String := "error"

/-- Whether the THEN of a check raises. -/
def Expression.isError : Expression → Bool
  | .function name _ _ => name == errorFuncStr
  | _ => false

end Syntax

section Inputs

/-- `static_cast<cudf::size_type>`. -/
def sizeType (n : Nat) : Int := (BitVec.ofNat 32 n).toInt

structure Inputs where
  inputCount : Int
  hasNullInputColumn : Bool

/-- The loop of `SetInputColumns`. -/
def countColumns (inputs : Inputs) : List Column → Inputs
  | [] => inputs
  | c :: rest =>
    let tempCount := sizeType c.rowCount
    if tempCount > 0 then countColumns { inputs with inputCount := tempCount } rest
    else countColumns { inputs with hasNullInputColumn := true } rest

def setInputColumns (columns : List Column) : Inputs :=
  if columns = [] then ⟨1, false⟩ else countColumns ⟨0, false⟩ columns

mutual

/-- Whether an expression has a leaf without data. -/
def hasNullLeaf (columns : List Column) : Expression → Bool
  | .between input lower upper =>
    hasNullLeaf columns input || hasNullLeaf columns lower || hasNullLeaf columns upper
  | .case whenExpr thenExpr elseExpr =>
    hasNullLeaf columns whenExpr || hasNullLeaf columns thenExpr ||
      hasNullLeaf columns elseExpr
  | .cast child _ => hasNullLeaf columns child
  | .comparison _ left right => hasNullLeaf columns left || hasNullLeaf columns right
  | .conjunction _ children => hasNullLeafLoop columns children
  | .constant _ => false
  | .function _ children _ => hasNullLeafLoop columns children
  | .operator _ children => hasNullLeafLoop columns children
  | .reference index => (columns[index]?).all (·.entries.isNone)

def hasNullLeafLoop (columns : List Column) : List Expression → Bool
  | [] => false
  | child :: rest => hasNullLeaf columns child || hasNullLeafLoop columns rest

end

/-- Whether an expression is not executed. -/
def skipped (columns : List Column) (expr : Expression) : Bool :=
  let inputs := setInputColumns columns
  inputs.inputCount = 0 || inputs.hasNullInputColumn && hasNullLeaf columns expr

theorem countColumns_cases {n : Nat} {columns : List Column} (inputs : Inputs)
    (counts : ∀ c ∈ columns, c.rowCount = 0 ∨ c.rowCount = n)
    (start : inputs.inputCount = 0 ∨ 0 < sizeType n ∧ inputs.inputCount = sizeType n) :
    (countColumns inputs columns).inputCount = 0 ∨
      0 < sizeType n ∧ (countColumns inputs columns).inputCount = sizeType n := by
  induction columns generalizing inputs with
  | nil => exact start
  | cons c rest ih =>
      have later := fun c' member => counts c' (List.mem_cons_of_mem c member)
      rw [countColumns]
      by_cases positive : sizeType c.rowCount > 0
      · rw [if_pos positive]
        refine ih _ later (Or.inr ?_)
        rcases counts c List.mem_cons_self with none | same
        · rw [none] at positive
          exact absurd positive (by decide)
        · rw [same] at positive
          exact ⟨positive, congrArg sizeType same⟩
      · rw [if_neg positive]
        exact ih _ later start

/-- The input count is that of the rows, or zero. -/
theorem inputCount_cases (r : Relation) : (setInputColumns r.columns).inputCount = 0 ∨
    0 < sizeType r.rowCount ∧
      (setInputColumns r.columns).inputCount = sizeType r.rowCount := by
  rw [setInputColumns, if_neg r.some]
  refine countColumns_cases _ (fun c member => ?_) (Or.inl rfl)
  by_cases null : c.entries = none
  · exact r.empty c member null
  · exact Or.inr (r.even c member null)

end Inputs

section Execution

/-- A value with its type; `none` is NULL. -/
structure Scalar where
  type : GPUColumnType
  value : Option Bytes
  deriving DecidableEq

/-- A column of cudf. -/
structure CudfColumn where
  type : GPUColumnType
  values : List (Option Bytes)
  deriving DecidableEq

inductive BinaryOperator
  | comparison (type : ComparisonType)
  | logical (type : ConjunctionType)
  | arithmetic (name : String)
  deriving DecidableEq

/-- A call of cudf, with the constants it takes as scalars. -/
inductive Operation
  | binary (op : BinaryOperator) (returnType : LogicalType)
  | leftScalar (op : BinaryOperator) (left : Constant) (returnType : LogicalType)
  | rightScalar (op : BinaryOperator) (right : Constant) (returnType : LogicalType)
  | contains (haystack : List Constant)
  | not
  | isNull
  | cast (type : GPUColumnType)
  | copyIfElse
  | function (name : String) (arguments : List Constant)
  deriving DecidableEq

structure Cudf where
  run : Operation → List CudfColumn → Except Exception CudfColumn
  scalar : Constant → Except Exception Scalar

variable (cudf : Cudf)

/-- `GetCudfType`; a decimal has the type of its width. -/
def getCudfType : LogicalType → Except Exception GPUColumnType
  | .smallint => .ok .int16
  | .integer => .ok .int32
  | .bigint | .hugeint => .ok .int64
  | .float => .ok .float32
  | .double => .ok .float64
  | .boolean => .ok .boolean
  | .date => .ok .date
  | .timestampSec => .ok .timestampSec
  | .timestampMs => .ok .timestampMs
  | .timestamp => .ok .timestampUs
  | .timestampNs => .ok .timestampNs
  | .varchar => .ok .varchar
  | .decimal width scale =>
    if width ≤ 4 then
      .error (.invalidInput "GetCudfType: Unsupported duckdb decimal physical type")
    else .ok (.decimal width scale)
  | _ => .error (.invalidInput "GetCudfType: Unsupported duckdb type")

/-- `cudf::data_type` of an id alone: a decimal without scale. -/
def ofId : GPUColumnType → GPUColumnType
  | .decimal width _ => .decimal width 0
  | type => type

/-- Whether the types have the same `id()`. -/
def sameId : GPUColumnType → GPUColumnType → Bool
  | .decimal width _, .decimal width' _ => decimalTypeSize width = decimalTypeSize width'
  | a, b => a = b

def int32Max : Nat := 2147483647

/-- `convertToCudfColumn` of a column without row ids. cudf refuses a null pointer to some
rows, or to the offsets of strings. -/
def convertToCudfColumn (c : Column) : Except Exception CudfColumn :=
  if materializable c.type then
    match c.entries with
    | some es => .ok ⟨c.type, es.map Entry.value⟩
    | none =>
      if c.columnLength = 0 ∧ c.type ≠ .varchar then .ok ⟨c.type, []⟩
      else .error (.internal "cudf: Null data pointer.")
  else .error (unsupportedType c.type)

/-- The type of a column from cudf; a decimal has the greatest width of its size. -/
def storedType : GPUColumnType → Except Exception GPUColumnType
  | .decimal width scale =>
    if decimalTypeSize width = 4 then .ok (.decimal 9 scale)
    else if decimalTypeSize width = 8 then .ok (.decimal 18 scale)
    else if decimalTypeSize width = 16 then .ok (.decimal 38 scale)
    else .error unsupportedCudfType
  | .int128 => .error unsupportedCudfType
  | type => .ok type
where unsupportedCudfType : Exception :=
  .notImplemented "Unsupported cudf data type in `setFromCudfColumn`"

def entryOf : Option Bytes → Entry
  | some bits => ⟨bits, true⟩
  | none => ⟨[], false⟩

/-- `setFromCudfColumn`. A buffer without bytes has a null pointer. -/
def setFromCudfColumn (column : CudfColumn) (isUnique : Bool) : Except Exception Column := do
  let type ← storedType column.type
  let entries := column.values.map entryOf
  if entries = [] then .ok (emptyColumn type)
  else .ok (plainColumn type entries (bytesOf type entries) isUnique)

def executeReference (c : Column) : Except Exception CudfColumn :=
  match c.rowIds with
  | some ids =>
    if ids.length > int32Max then .error (.notImplemented
      "Execute[Reference]: row_id_counts larger than int32_t are not supported in libcudf")
    else do
      let outputColumn ← materialize c
      convertToCudfColumn outputColumn
  | none =>
    if c.columnLength > int32Max then .error (.notImplemented
      "Execute[Reference]: input column length larger than int32_t are not supported in libcudf")
    else convertToCudfColumn c

/-- The results of children; a child is executed where its result is used. -/
abbrev Results := List (Except Exception CudfColumn)

def executeComparison (type : ComparisonType) (right : Expression)
    (leftResult rightResult : Except Exception CudfColumn) : Except Exception CudfColumn :=
  match type with
  | .distinctFrom | .notDistinctFrom => .error (.notImplemented
      "Execute[Comparison]: DISTINCT comparisons not yet implemented!")
  | _ => do
    let left ← leftResult
    match right.asConstant with
    | some value => cudf.run (.rightScalar (.comparison type) value .boolean) [left]
    | none => do
      let right ← rightResult
      cudf.run (.binary (.comparison type) .boolean) [left, right]

/-- The loop of a conjunction over the children after the first. -/
def executeConjunction (type : ConjunctionType) (output : CudfColumn) :
    Results → Except Exception CudfColumn
  | [] => .ok output
  | result :: rest => do
    let current ← result
    let output ← cudf.run (.binary (.logical type) .boolean) [current, output]
    executeConjunction type output rest

def outOfBounds : Exception := .internal "Attempted to access index within vector"

def arithmeticFunctions : List String := ["+", "-", "*", "/", "//", "%"]

def executeArithmetic (name : String) (children : List Expression) (results : Results)
    (returnType : LogicalType) : Except Exception CudfColumn :=
  match children, results with
  | [left, right], [leftResult, rightResult] =>
    match left.asConstant, right.asConstant with
    | some value, _ => do
      let right ← rightResult
      cudf.run (.leftScalar (.arithmetic name) value returnType) [right]
    | none, some value => do
      let left ← leftResult
      cudf.run (.rightScalar (.arithmetic name) value returnType) [left]
    | none, none => do
      let left ← leftResult
      let right ← rightResult
      cudf.run (.binary (.arithmetic name) returnType) [left, right]
  | _, _ => .error outOfBounds

/-- A function of one column, whose other arguments are taken to be constants. -/
def executeOnColumn (name : String) (input : Except Exception CudfColumn)
    (arguments : List Expression) : Except Exception CudfColumn :=
  match arguments.mapM Expression.asConstant with
  | some constants => do
    let input ← input
    cudf.run (.function name constants) [input]
  | none => .error .fault

/-- The functions of a string or a timestamp and how many constants follow it. -/
def columnFunctions : List (String × Nat) :=
  [("substring", 2), ("substr", 2), ("~~", 1), ("!~~", 1), ("contains", 1), ("prefix", 1),
    ("suffix", 1), ("year", 0), ("month", 0), ("day", 0), ("hour", 0), ("minute", 0),
    ("second", 0), ("millisecond", 0), ("microsecond", 0), ("strlen", 0), ("length", 0),
    ("regexp_replace", 2)]

def executeFunction (name : String) (children : List Expression) (results : Results)
    (returnType : LogicalType) : Except Exception CudfColumn :=
  if name ∈ arithmeticFunctions then executeArithmetic cudf name children results returnType
  else if name = errorFuncStr then
    .error (.internal "Execute[Function]: error() should be handled by Execute[Case]!")
  else if name = "date_trunc" then
    match children, results with
    | [frequency, _], [_, input] => executeOnColumn cudf name input [frequency]
    | _, _ => .error outOfBounds
  else match columnFunctions.lookup name with
    | some count =>
      match children, results with
      | _ :: arguments, input :: _ =>
        if arguments.length = count then executeOnColumn cudf name input arguments
        else .error outOfBounds
      | _, _ => .error outOfBounds
    | none => .error (.internal "Execute[Function]: Unknown function type")

/-- The comparisons of an IN with its list, collected by OR. -/
def executeAnyEqual (left intermediate : CudfColumn) : Results → Except Exception CudfColumn
  | [] => .ok intermediate
  | result :: rest => do
    let comparator ← result
    let comparison ← cudf.run (.binary (.comparison .equal) .boolean) [left, comparator]
    let intermediate ← cudf.run (.binary (.logical .or) .boolean) [intermediate, comparison]
    executeAnyEqual left intermediate rest

/-- An IN whose list is constant is a search, negated or not. -/
def executeIn (negated : Bool) (children : List Expression) (results : Results) :
    Except Exception CudfColumn :=
  match children, results with
  | _ :: other :: others, leftResult :: firstResult :: rest => do
    let left ← leftResult
    match (other :: others).mapM Expression.asConstant with
    | some haystack => cudf.run (.contains haystack) [left]
    | none => do
      let comparator ← firstResult
      let comparison ← cudf.run (.binary (.comparison .equal) .boolean) [left, comparator]
      let result ← executeAnyEqual cudf left comparison rest
      if negated then cudf.run .not [result] else .ok result
  | _, _ =>
    .error (.invalidInput "Execute[BOUND_OPERATOR]: IN needs at least two children!")

def executeUnary (type : OperatorType) (child : CudfColumn) : Except Exception CudfColumn :=
  match type with
  | .not => cudf.run .not [child]
  | .isNull => cudf.run .isNull [child]
  | .isNotNull => do
    let temp ← cudf.run .isNull [child]
    cudf.run .not [temp]
  | _ => .error (.notImplemented
      "Execute[OPERATOR]: Unimplemented operator type with 1 child!")

def executeOperator (type : OperatorType) (children : List Expression) (results : Results) :
    Except Exception CudfColumn :=
  match type with
  | .compareIn => executeIn cudf false children results
  | .compareNotIn => executeIn cudf true children results
  | .coalesce =>
    .error (.notImplemented "Execute[OPERATOR_COALESCE]: Not yet implemented!")
  | _ =>
    match results with
    | [result] => do
      let child ← result
      executeUnary cudf type child
    | _ => .error (.notImplemented "Execute[OPERATOR]: Unimplemented operator type!")

/-- Whether a value of a mask is TRUE. -/
def isTrue (value : Option Bytes) : Bool := value.any fun bits => bits.any (· ≠ 0)

/-- One check of a CASE. The THEN of an error check is not executed. -/
def executeCase (thenExpr : Expression)
    (whenResult thenResult elseResult : Except Exception CudfColumn) :
    Except Exception CudfColumn := do
  let currentOutput ← elseResult
  let currentMask ← whenResult
  if thenExpr.isError then
    if currentMask.values.any isTrue then .error (.internal
      "Execute[Case]: More than one row returned by a subquery used as an expression.")
    else .ok currentOutput
  else do
    let currentThen ← thenResult
    cudf.run .copyIfElse [currentThen, currentOutput, currentMask]

def executeBetween (inputResult lowerResult upperResult : Except Exception CudfColumn) :
    Except Exception CudfColumn := do
  let input ← inputResult
  let lower ← lowerResult
  let upper ← upperResult
  let lowerCmp ← cudf.run (.binary (.comparison .greaterThanOrEqualTo) .boolean) [input, lower]
  let upperCmp ← cudf.run (.binary (.comparison .lessThanOrEqualTo) .boolean) [input, upper]
  cudf.run (.binary (.logical .and) .boolean) [lowerCmp, upperCmp]

variable (columns : List Column) (inputCount : Nat)

mutual

/-- `Execute` of an expression, by its class. -/
def execute : Expression → Except Exception CudfColumn
  | .between input lower upper =>
    executeBetween cudf (execute input) (execute lower) (execute upper)
  | .case whenExpr thenExpr elseExpr =>
    executeCase cudf thenExpr (execute whenExpr) (execute thenExpr) (execute elseExpr)
  | .cast child returnType => do
    let type ← getCudfType returnType
    let child ← execute child
    cudf.run (.cast (ofId type)) [child]
  | .comparison type left right =>
    executeComparison cudf type right (execute left) (execute right)
  | .conjunction type children =>
    match executeChildren children with
    | [] => .error .fault
    | result :: rest => do
      let output ← result
      executeConjunction cudf type output rest
  | .constant value => do
    let scalar ← cudf.scalar value
    .ok ⟨scalar.type, List.replicate inputCount scalar.value⟩
  | .function name children returnType =>
    executeFunction cudf name children (executeChildren children) returnType
  | .operator type children => executeOperator cudf type children (executeChildren children)
  | .reference index =>
    match columns[index]? with
    | some c => executeReference c
    | none => .error .fault

def executeChildren : List Expression → Results
  | [] => []
  | child :: rest => execute child :: executeChildren rest

end

end Execution

section Lengths

/-- cudf refuses columns of different lengths, and its results have the length of the
arguments. -/
def LengthPreserving (cudf : Cudf) : Prop :=
  ∀ op args out, cudf.run op args = .ok out →
    ∀ a ∈ args, a.values.length = out.values.length

/-- A result without rows, or with all. -/
def Sized (count : Nat) (result : Except Exception CudfColumn) (empty : Bool) : Prop :=
  ∀ column, result = .ok column → column.values.length = if empty then 0 else count

variable {cudf : Cudf} {count : Nat} {result result' : Except Exception CudfColumn}
  {empty empty' : Bool}

theorem Sized.error (e : Exception) : Sized count (.error e) empty := nofun

theorem Sized.bind {f : CudfColumn → Except Exception CudfColumn}
    (next : ∀ column, result = .ok column → Sized count (f column) empty) :
    Sized count (result >>= f) empty := by
  intro out run
  cases ran : result with
  | error e =>
      rw [ran] at run
      cases run
  | ok column =>
      rw [ran] at run
      exact next column ran out run

theorem Sized.unary (even : LengthPreserving cudf) (op : Operation)
    (sized : Sized count result empty) :
    Sized count (do let column ← result; cudf.run op [column]) empty := by
  refine Sized.bind fun column ran out run => ?_
  rw [← even op _ out run column List.mem_cons_self]
  exact sized column ran

theorem Sized.binary (even : LengthPreserving cudf) (op : Operation)
    (sized : Sized count result empty) (sized' : Sized count result' empty') :
    Sized count (do let left ← result; let right ← result'; cudf.run op [left, right])
      (empty || empty') := by
  refine Sized.bind fun left ran => Sized.bind fun right ran' => ?_
  intro out run
  have lengths := even op _ out run
  have first := lengths left (by simp)
  have second := lengths right (by simp)
  rw [sized left ran] at first
  rw [sized' right ran'] at second
  cases empty with
  | true => simpa using first.symm
  | false => simpa using second.symm

theorem Sized.run (even : LengthPreserving cudf) (op : Operation) {left right : CudfColumn}
    (first : left.values.length = if empty then 0 else count)
    (second : right.values.length = if empty' then 0 else count) :
    Sized count (cudf.run op [left, right]) (empty || empty') := by
  intro out run
  have lengths := even op _ out run
  have left' := lengths left (by simp)
  have right' := lengths right (by simp)
  cases empty with
  | true => simpa [first] using left'.symm
  | false => simpa [second] using right'.symm

theorem executeComparison_sized (even : LengthPreserving cudf) (type : ComparisonType)
    {right : Expression} (constant : right.asConstant ≠ none → empty' = false)
    (sized : Sized count result empty) (sized' : Sized count result' empty') :
    Sized count (executeComparison cudf type right result result') (empty || empty') := by
  have compared : Sized count (do
      let left ← result
      match right.asConstant with
      | some value => cudf.run (.rightScalar (.comparison type) value .boolean) [left]
      | none => do
        let right ← result'
        cudf.run (.binary (.comparison type) .boolean) [left, right]) (empty || empty') := by
    cases same : right.asConstant with
    | some value =>
        have full := constant (by simp [same])
        simpa [full] using sized.unary even (.rightScalar (.comparison type) value .boolean)
    | none => exact sized.binary even _ sized'
  cases type with
  | distinctFrom => exact Sized.error _
  | notDistinctFrom => exact Sized.error _
  | _ => exact compared

theorem executeConjunction_sized (even : LengthPreserving cudf) (type : ConjunctionType)
    {results : Results} {empties : List Bool} (all : List.Forall₂ (Sized count) results empties)
    {output : CudfColumn} (sized : output.values.length = if empty then 0 else count) :
    Sized count (executeConjunction cudf type output results) (empty || empties.any id) := by
  induction all generalizing output empty with
  | nil =>
      intro out run
      cases run
      simpa using sized
  | cons head _ ih =>
      refine Sized.bind fun current ran => Sized.bind fun next ran' => ?_
      have length := Sized.run even _ (head current ran) sized next ran'
      simpa [Bool.or_comm, Bool.or_assoc, Bool.or_left_comm] using ih length

theorem executeOnColumn_sized (even : LengthPreserving cudf) (name : String)
    (sized : Sized count result empty) (arguments : List Expression) :
    Sized count (executeOnColumn cudf name result arguments) empty := by
  rw [executeOnColumn]
  cases arguments.mapM Expression.asConstant with
  | none => exact Sized.error _
  | some constants => exact sized.unary even (.function name constants)

theorem executeAnyEqual_sized (even : LengthPreserving cudf) {left intermediate : CudfColumn}
    {results : Results} {empties : List Bool} (all : List.Forall₂ (Sized count) results empties)
    (sized : left.values.length = if empty then 0 else count)
    (sized' : intermediate.values.length = if empty || empty' then 0 else count) :
    Sized count (executeAnyEqual cudf left intermediate results)
      (empty || empty' || empties.any id) := by
  induction all generalizing intermediate empty' with
  | nil =>
      intro out run
      cases run
      simpa using sized'
  | @cons _ next _ _ head _ ih =>
      refine Sized.bind fun comparator ran => Sized.bind fun comparison ran' =>
        Sized.bind fun collected ran'' => ?_
      have compared := Sized.run even _ sized (head comparator ran) comparison ran'
      have length := Sized.run even _ sized' compared collected ran''
      have shorter : (empty || empty' || (empty || next)) = (empty || (empty' || next)) := by
        cases empty <;> simp
      rw [shorter] at length
      simpa [Bool.or_assoc] using ih length

theorem executeUnary_sized (even : LengthPreserving cudf) (type : OperatorType)
    {child : CudfColumn} (sized : child.values.length = if empty then 0 else count) :
    Sized count (executeUnary cudf type child) empty := by
  have one (op : Operation) : Sized count (cudf.run op [child]) empty := by
    intro out run
    rw [← even op _ out run child List.mem_cons_self, sized]
  cases type with
  | not => exact one .not
  | isNull => exact one .isNull
  | isNotNull => exact (one .isNull).unary even .not
  | _ => exact Sized.error _

theorem executeBetween_sized (even : LengthPreserving cudf) {result'' : Except Exception CudfColumn}
    {empty'' : Bool} (input : Sized count result empty) (lower : Sized count result' empty')
    (upper : Sized count result'' empty'') :
    Sized count (executeBetween cudf result result' result'') (empty || empty' || empty'') := by
  refine Sized.bind fun input' ran => Sized.bind fun lower' ran' => Sized.bind fun upper' ran'' =>
    Sized.bind fun above run => Sized.bind fun below run' => ?_
  have above' := Sized.run even _ (input input' ran) (lower lower' ran') above run
  have below' := Sized.run even _ (input input' ran) (upper upper' ran'') below run'
  have same : (empty || empty' || empty'') = (empty || empty' || (empty || empty'')) := by
    cases empty <;> simp
  rw [same]
  exact Sized.run even _ above' below'

/-- The mask of an error check need not have the length of the output. -/
theorem executeCase_sized (even : LengthPreserving cudf) {result'' : Except Exception CudfColumn}
    {empty'' : Bool} (thenExpr : Expression)
    (checked : thenExpr.isError = true → (empty || empty' || empty'') = false)
    (mask : Sized count result empty) (output : Sized count result' empty')
    (other : Sized count result'' empty'') :
    Sized count (executeCase cudf thenExpr result result' result'')
      (empty || empty' || empty'') := by
  refine Sized.bind fun currentOutput ran => Sized.bind fun currentMask ran' => ?_
  by_cases error : thenExpr.isError = true
  · have full := checked error
    intro out run
    simp only [error, if_true] at run
    split at run
    · cases run
    · cases run
      have full' : empty'' = false := by
        cases empty'' with
        | false => rfl
        | true => simp at full
      rw [full, ← full']
      exact other currentOutput ran
  · simp only [error]
    refine Sized.bind fun currentThen ran'' => ?_
    intro out run
    have lengths := even .copyIfElse _ out run
    have first := lengths currentThen (by simp)
    have second := lengths currentOutput (by simp)
    have third := lengths currentMask (by simp)
    rw [output currentThen ran''] at first
    rw [other currentOutput ran] at second
    rw [mask currentMask ran'] at third
    cases empty with
    | true => simpa using third.symm
    | false =>
        cases empty' with
        | true => simpa using first.symm
        | false => simpa using second.symm

/-- The columns as a relation shows them: without rows, or with `count` of those cudf can
count. -/
def Counted (columns : List Column) (count : Nat) : Prop :=
  ∀ c ∈ columns, c.entries ≠ none → c.rowCount ≤ int32Max → c.rowCount = count

theorem convertToCudfColumn_inv {c : Column} (direct : c.rowIds = none) {out : CudfColumn}
    (run : convertToCudfColumn c = .ok out) :
    out.type = c.type ∧ out.values = c.shown.map Entry.value := by
  rw [convertToCudfColumn] at run
  split at run
  · cases data : c.entries with
    | some es =>
        simp only [data] at run
        cases run
        simp [Column.shown, data, direct]
    | none =>
        simp only [data] at run
        split at run
        · cases run
          simp [Column.shown, data]
        · cases run
  · cases run

theorem entryOf_value (value : Option Bytes) : (entryOf value).value = value := by
  cases value <;> rfl

/-- What a column from cudf is. -/
structure Stored (values : List (Option Bytes)) (c : Column) : Prop where
  direct : c.rowIds = none
  shown : c.shown.map Entry.value = values
  columnLength : c.columnLength = values.length

theorem setFromCudfColumn_inv {column : CudfColumn} {isUnique : Bool} {c : Column}
    (run : setFromCudfColumn column isUnique = .ok c) : Stored column.values c := by
  obtain ⟨type, -, stored⟩ := bind_ok_iff.mp run
  by_cases none : column.values = []
  · simp only [none, List.map_nil, if_true] at stored
    cases stored
    rw [none]
    constructor
    · rfl
    · rfl
    · rfl
  · simp only [List.map_eq_nil_iff, none, if_false] at stored
    cases stored
    constructor
    · rfl
    · simp [Column.shown, plainColumn, Function.comp_def, entryOf_value]
    · exact List.length_map _

theorem setFromCudfColumn_type {column : CudfColumn} {isUnique : Bool} {c : Column}
    (run : setFromCudfColumn column isUnique = .ok c) : storedType column.type = .ok c.type := by
  obtain ⟨type, stored, run⟩ := bind_ok_iff.mp run
  rw [stored]
  by_cases none : column.values = []
  · simp only [none, List.map_nil, if_true] at run
    cases run
    rfl
  · simp only [List.map_eq_nil_iff, none, if_false] at run
    cases run
    rfl

theorem setFromCudfColumn_rowCount {column : CudfColumn} {isUnique : Bool} {c : Column}
    (run : setFromCudfColumn column isUnique = .ok c) : c.rowCount = column.values.length := by
  have stored := setFromCudfColumn_inv run
  rw [Column.rowCount, stored.direct]
  exact stored.columnLength

theorem executeReference_length {c : Column} {out : CudfColumn}
    (run : executeReference c = .ok out) :
    out.values.length = c.shown.length ∧ c.rowCount ≤ int32Max := by
  rw [executeReference] at run
  cases ids : c.rowIds with
  | some ids' =>
      simp only [ids] at run
      split at run
      · cases run
      · cases output : materialize c with
        | error e =>
            rw [output] at run
            cases run
        | ok outputColumn =>
            rw [output] at run
            obtain ⟨-, materialized⟩ := materialize_inv output
            constructor
            · rw [(convertToCudfColumn_inv materialized.direct run).2, materialized.shown]
              exact List.length_map _
            · simp only [Column.rowCount, ids]
              omega
  | none =>
      simp only [ids] at run
      split at run
      · cases run
      · constructor
        · rw [(convertToCudfColumn_inv ids run).2]
          exact List.length_map _
        · simp only [Column.rowCount, ids]
          omega

theorem executeReference_sized {columns : List Column} (counted : Counted columns count)
    {c : Column} (member : c ∈ columns) :
    Sized count (executeReference c) c.entries.isNone := by
  intro out run
  obtain ⟨length, small⟩ := executeReference_length run
  cases data : c.entries with
  | none => simp [length, Column.shown, data]
  | some es =>
      have some : c.entries ≠ none := by simp [data]
      simp [length, shown_length some, counted c member some small]

theorem hasNullLeafLoop_eq (columns : List Column) (children : List Expression) :
    hasNullLeafLoop columns children = (children.map (hasNullLeaf columns)).any id := by
  induction children with
  | nil => rw [hasNullLeafLoop, List.map_nil, List.any_nil]
  | cons child rest ih => simp [hasNullLeafLoop, ih]

theorem hasNullLeaf_constant (columns : List Column) (expr : Expression)
    (constant : expr.asConstant ≠ none) : hasNullLeaf columns expr = false := by
  cases expr with
  | constant value => rw [hasNullLeaf]
  | _ => exact absurd rfl constant

theorem hasNullLeafLoop_constants (columns : List Column) {children : List Expression}
    {constants : List Constant} (all : children.mapM Expression.asConstant = some constants) :
    hasNullLeafLoop columns children = false := by
  induction children generalizing constants with
  | nil => rw [hasNullLeafLoop]
  | cons child rest ih =>
      rw [List.mapM_cons] at all
      cases head : child.asConstant with
      | none => simp [head] at all
      | some value =>
          cases tail : rest.mapM Expression.asConstant with
          | none => simp [head, tail] at all
          | some values =>
              simp [hasNullLeafLoop, ih tail, hasNullLeaf_constant columns child (by simp [head])]

variable {columns : List Column}

theorem executeArithmetic_sized (even : LengthPreserving cudf) (name : String)
    {children : List Expression} {results : Results} (returnType : LogicalType)
    (all : List.Forall₂ (Sized count) results (children.map (hasNullLeaf columns))) :
    Sized count (executeArithmetic cudf name children results returnType)
      (hasNullLeafLoop columns children) := by
  unfold executeArithmetic
  split
  case h_1 left right leftResult rightResult =>
    simp only [List.map_cons, List.map_nil, List.forall₂_cons] at all
    obtain ⟨sized, sized', -⟩ := all
    have loop : hasNullLeafLoop columns [left, right] =
        (hasNullLeaf columns left || hasNullLeaf columns right) := by simp [hasNullLeafLoop]
    rw [loop]
    split
    case h_1 value constant =>
      rw [hasNullLeaf_constant columns left (by simp [constant]), Bool.false_or]
      exact sized'.unary even _
    case h_2 value _ constant =>
      rw [hasNullLeaf_constant columns right (by simp [constant]), Bool.or_false]
      exact sized.unary even _
    case h_3 => exact sized.binary even _ sized'
  case h_2 => exact Sized.error _

theorem executeFunction_sized (even : LengthPreserving cudf) (name : String)
    {children : List Expression} {results : Results} (returnType : LogicalType)
    (all : List.Forall₂ (Sized count) results (children.map (hasNullLeaf columns))) :
    Sized count (executeFunction cudf name children results returnType)
      (hasNullLeafLoop columns children) := by
  unfold executeFunction
  split
  · exact executeArithmetic_sized even name returnType all
  split
  · exact Sized.error _
  split
  · split
    case h_1 frequency child other input =>
      simp only [List.map_cons, List.map_nil, List.forall₂_cons] at all
      obtain ⟨-, sized, -⟩ := all
      by_cases constant : frequency.asConstant = none
      · intro out run
        simp [executeOnColumn, constant] at run
      · have full := hasNullLeaf_constant columns frequency constant
        have loop : hasNullLeafLoop columns [frequency, child] = hasNullLeaf columns child := by
          simp [hasNullLeafLoop, full]
        rw [loop]
        exact executeOnColumn_sized even name sized _
    case h_2 => exact Sized.error _
  split
  · split
    case h_1 first arguments input rest =>
      split
      · simp only [List.map_cons, List.forall₂_cons] at all
        rw [executeOnColumn]
        cases constants : arguments.mapM Expression.asConstant with
        | none => exact Sized.error _
        | some values =>
            have loop : hasNullLeafLoop columns (first :: arguments) =
                hasNullLeaf columns first := by
              simp [hasNullLeafLoop, hasNullLeafLoop_constants columns constants]
            rw [loop]
            exact all.1.unary even _
      · exact Sized.error _
    case h_2 => exact Sized.error _
  · exact Sized.error _

theorem executeIn_sized (even : LengthPreserving cudf) (negated : Bool)
    {children : List Expression} {results : Results}
    (all : List.Forall₂ (Sized count) results (children.map (hasNullLeaf columns))) :
    Sized count (executeIn cudf negated children results) (hasNullLeafLoop columns children) := by
  unfold executeIn
  split
  case h_1 first other others leftResult firstResult rest =>
    simp only [List.map_cons, List.forall₂_cons] at all
    obtain ⟨sized, sized', others'⟩ := all
    have loop : hasNullLeafLoop columns (first :: other :: others) =
        (hasNullLeaf columns first || hasNullLeafLoop columns (other :: others)) := by
      rw [hasNullLeafLoop]
    rw [loop]
    refine Sized.bind fun left ran => ?_
    cases constants : (other :: others).mapM Expression.asConstant with
    | some haystack =>
        intro out run
        rw [hasNullLeafLoop_constants columns constants, Bool.or_false, ← sized left ran]
        exact (even _ _ out run left List.mem_cons_self).symm
    | none =>
        refine Sized.bind fun comparator ran' => Sized.bind fun comparison run =>
          Sized.bind fun collected run' => ?_
        have compared := Sized.run even _ (sized left ran) (sized' comparator ran') comparison run
        have length := executeAnyEqual_sized even others' (sized left ran) compared collected run'
        have same : (hasNullLeaf columns first || hasNullLeaf columns other ||
            (others.map (hasNullLeaf columns)).any id) =
              (hasNullLeaf columns first || hasNullLeafLoop columns (other :: others)) := by
          rw [hasNullLeafLoop, hasNullLeafLoop_eq, Bool.or_assoc]
        rw [same] at length
        intro out done
        split at done
        · rw [← even _ _ out done collected List.mem_cons_self, length]
        · cases done
          exact length
  case h_2 => exact Sized.error _

theorem executeOperator_sized (even : LengthPreserving cudf) (type : OperatorType)
    {children : List Expression} {results : Results}
    (all : List.Forall₂ (Sized count) results (children.map (hasNullLeaf columns))) :
    Sized count (executeOperator cudf type children results)
      (hasNullLeafLoop columns children) := by
  unfold executeOperator
  split
  · exact executeIn_sized even false all
  · exact executeIn_sized even true all
  · exact Sized.error _
  split
  · obtain ⟨empty, rest, head, none, same⟩ := List.forall₂_cons_left_iff.mp all
    rw [hasNullLeafLoop_eq, same, List.forall₂_nil_left_iff.mp none]
    refine Sized.bind fun child ran => ?_
    simpa using executeUnary_sized even type (head child ran)
  · exact Sized.error _

mutual

/-- Whether some check of a CASE raises. -/
def hasErrorCheck : Expression → Bool
  | .between input lower upper =>
    hasErrorCheck input || hasErrorCheck lower || hasErrorCheck upper
  | .case whenExpr thenExpr elseExpr =>
    thenExpr.isError || hasErrorCheck whenExpr || hasErrorCheck thenExpr ||
      hasErrorCheck elseExpr
  | .cast child _ => hasErrorCheck child
  | .comparison _ left right => hasErrorCheck left || hasErrorCheck right
  | .conjunction _ children => hasErrorCheckLoop children
  | .constant _ => false
  | .function _ children _ => hasErrorCheckLoop children
  | .operator _ children => hasErrorCheckLoop children
  | .reference _ => false

def hasErrorCheckLoop : List Expression → Bool
  | [] => false
  | child :: rest => hasErrorCheck child || hasErrorCheckLoop rest

end

/-- No error check reads a column without data. -/
def Checked (columns : List Column) (expr : Expression) : Prop :=
  hasErrorCheck expr = false ∨ hasNullLeaf columns expr = false

def CheckedLoop (columns : List Column) (children : List Expression) : Prop :=
  hasErrorCheckLoop children = false ∨ hasNullLeafLoop columns children = false

mutual

/-- An expression with a leaf without data has no rows, any other has all. -/
theorem execute_sized (even : LengthPreserving cudf) (counted : Counted columns count) :
    ∀ expr, Checked columns expr →
      Sized count (execute cudf columns count expr) (hasNullLeaf columns expr)
  | .between input lower upper, checked => by
    simp only [Checked, hasErrorCheck, hasNullLeaf, Bool.or_eq_false_iff] at checked
    rw [execute, hasNullLeaf]
    exact executeBetween_sized even
      (execute_sized even counted input (by grind [Checked]))
      (execute_sized even counted lower (by grind [Checked]))
      (execute_sized even counted upper (by grind [Checked]))
  | .case whenExpr thenExpr elseExpr, checked => by
    simp only [Checked, hasErrorCheck, hasNullLeaf, Bool.or_eq_false_iff] at checked
    rw [execute, hasNullLeaf]
    exact executeCase_sized even thenExpr (by grind)
      (execute_sized even counted whenExpr (by grind [Checked]))
      (execute_sized even counted thenExpr (by grind [Checked]))
      (execute_sized even counted elseExpr (by grind [Checked]))
  | .cast child returnType, checked => by
    simp only [Checked, hasErrorCheck, hasNullLeaf] at checked
    rw [execute, hasNullLeaf]
    cases getCudfType returnType with
    | error e => exact Sized.error e
    | ok type => exact (execute_sized even counted child checked).unary even (.cast (ofId type))
  | .comparison type left right, checked => by
    simp only [Checked, hasErrorCheck, hasNullLeaf, Bool.or_eq_false_iff] at checked
    rw [execute, hasNullLeaf]
    exact executeComparison_sized even type (hasNullLeaf_constant columns right)
      (execute_sized even counted left (by grind [Checked]))
      (execute_sized even counted right (by grind [Checked]))
  | .conjunction type children, checked => by
    simp only [Checked, hasErrorCheck, hasNullLeaf] at checked
    have all := executeChildren_sized even counted children checked
    rw [execute, hasNullLeaf, hasNullLeafLoop_eq]
    split
    · exact Sized.error _
    case h_2 result rest same =>
      rw [same] at all
      obtain ⟨empty, empties, head, others, same'⟩ := List.forall₂_cons_left_iff.mp all
      rw [same', List.any_cons]
      exact Sized.bind fun output ran => executeConjunction_sized even type others (head output ran)
  | .constant value, _ => by
    rw [execute, hasNullLeaf]
    refine fun out run => ?_
    cases scalar : cudf.scalar value with
    | error e =>
        rw [scalar] at run
        cases run
    | ok scalar' =>
        rw [scalar] at run
        cases run
        exact List.length_replicate
  | .function name children returnType, checked => by
    simp only [Checked, hasErrorCheck, hasNullLeaf] at checked
    rw [execute, hasNullLeaf]
    exact executeFunction_sized even name returnType
      (executeChildren_sized even counted children checked)
  | .operator type children, checked => by
    simp only [Checked, hasErrorCheck, hasNullLeaf] at checked
    rw [execute, hasNullLeaf]
    exact executeOperator_sized even type (executeChildren_sized even counted children checked)
  | .reference index, _ => by
    rw [execute, hasNullLeaf]
    cases same : columns[index]? with
    | none => exact Sized.error _
    | some c => simpa using executeReference_sized counted (List.mem_of_getElem? same)

theorem executeChildren_sized (even : LengthPreserving cudf) (counted : Counted columns count) :
    ∀ children, CheckedLoop columns children →
      List.Forall₂ (Sized count) (executeChildren cudf columns count children)
        (children.map (hasNullLeaf columns))
  | [], _ => by
    rw [executeChildren]
    exact .nil
  | child :: rest, checked => by
    simp only [CheckedLoop, hasErrorCheckLoop, hasNullLeafLoop, Bool.or_eq_false_iff] at checked
    rw [executeChildren]
    exact .cons (execute_sized even counted child (by grind [Checked]))
      (executeChildren_sized even counted rest (by grind [CheckedLoop]))

end

end Lengths

end GpuExpressions
