import SiriusGpu.DecimalScalars
import SiriusGpu.HalfAwayRounding
import SiriusGpu.IntegerArithmetic
import SiriusGpu.ResultChunks

/-!
# Decimal expressions

An expression is executed as columns of cudf, whose types carry a scale. The column
of the root is set as a GPU column and delivered under the planned type. Here a
column is a raw integer, or NULL, for every row of the input.
-/

namespace DecimalExpressions

open GpuMemory GpuColumns CudfColumns ResultCollector ResultChunks HalfAwayRounding NumericTypes
open DecimalScalars (leftDecimalScalar rightDecimalScalar)
open IntegerArithmetic (getValueIn)

section Expressions

inductive BinaryOperator
  | add | sub | mul | div | mod
  deriving DecidableEq, Repr

/-- A row of the input: the raw integers of its columns, or NULL. -/
abbrev Row := List (Option Int)

inductive Expression
  | reference (index : Nat) (type : NumericType)
  | constant (value : Int) (type : NumericType)
  | cast (child : Expression) (type : NumericType)
  | function (op : BinaryOperator) (left right : Expression) (type : NumericType)
  | caseWhen (check : Row → Bool) (result otherwise : Expression) (type : NumericType)

namespace Expression

def returnType : Expression → NumericType
  | .reference _ type | .constant _ type | .cast _ type | .function _ _ _ type
  | .caseWhen _ _ _ type => type

end Expression

/-- `cudf::cast` and `cudf::binary_operation`: the types they take and what they make of raw
integers. -/
structure Cudf where
  castable : CudfType → CudfType → Bool
  cast : CudfType → CudfType → Int → Int
  computable : BinaryOperator → CudfType → CudfType → CudfType → Bool
  compute : BinaryOperator → CudfType → CudfType → CudfType → Int → Int → Int

/-- The values of a column, for every row. -/
abbrev Values := Row → Option Int

/-- `AddChild` asks for the types of all children before anything is executed. -/
def initializeState : Expression → Except Exception Unit
  | .reference _ _ | .constant _ _ => pure ()
  | .cast child _ => do
    let _ ← getCudfType child.returnType
    initializeState child
  | .function _ left right _ => do
    let _ ← getCudfType left.returnType
    initializeState left
    let _ ← getCudfType right.returnType
    initializeState right
  | .caseWhen _ result otherwise _ => do
    let _ ← getCudfType result.returnType
    initializeState result
    let _ ← getCudfType otherwise.returnType
    initializeState otherwise

/-- `GetValue` of the integer type a constant is given. -/
def integerValue (type : CudfType) (value : Int) : Except Exception Int :=
  getValueIn (-2 ^ (8 * type.size - 1)) (2 ^ (8 * type.size - 1)) value

def makeColumnFromConstant (value : Int) (type : NumericType) :
    Except Exception (CudfType × Values) := do
  let cudfType ← getCudfType type
  match cudfType with
  | .int16 | .int32 | .int64 => do
    let raw ← integerValue cudfType value
    .ok (cudfType, fun _ => some raw)
  | .decimal32 _ | .decimal64 _ => .ok (cudfType, fun _ => some value)
  | .decimal128 _ => .error (.internal "Execute[Constant]: Unknown cudf type: %d")

/-- The scalar of a constant; a decimal one depends on the other side. -/
def scalarOf (decimalScalar : Int → CudfType → Except Exception (CudfType × Int)) (value : Int)
    (type : NumericType) : Except Exception (CudfType × Int) := do
  let cudfType ← getCudfType type
  match cudfType with
  | .int16 | .int32 | .int64 => do
    let raw ← integerValue cudfType value
    .ok (cudfType, raw)
  | .decimal32 _ | .decimal64 _ | .decimal128 _ => decimalScalar value cudfType

def unsupported : Exception := .internal "cudf: unsupported operation for the types"

variable (cudf : Cudf)

def castColumn (type : CudfType) (column : CudfType × Values) :
    Except Exception (CudfType × Values) :=
  if cudf.castable column.1 type then
    .ok (type, fun row => (column.2 row).map (cudf.cast column.1 type))
  else .error unsupported

def binaryOperation (op : BinaryOperator) (left right : CudfType × Values) (type : CudfType) :
    Except Exception (CudfType × Values) :=
  if cudf.computable op left.1 right.1 type then
    .ok (type, fun row => (left.2 row).bind fun x =>
      (right.2 row).map fun y => cudf.compute op left.1 right.1 type x y)
  else .error unsupported

def doLeftScalarBinaryOp (op : BinaryOperator) (value : Int) (constant : NumericType)
    (right : CudfType × Values) (type : CudfType) : Except Exception (CudfType × Values) := do
  let (scalar, raw) ← scalarOf (fun value left => leftDecimalScalar value left right.1) value
    constant
  binaryOperation cudf op (scalar, fun _ => some raw) right type

def doRightScalarBinaryOp (op : BinaryOperator) (left : CudfType × Values) (value : Int)
    (constant : NumericType) (type : CudfType) : Except Exception (CudfType × Values) := do
  let (scalar, raw) ← scalarOf (rightDecimalScalar left.1) value constant
  binaryOperation cudf op left (scalar, fun _ => some raw) type

/-- `cudf::copy_if_else` takes columns of one type. -/
def copyIfElse (check : Row → Bool) (result otherwise : CudfType × Values) :
    Except Exception (CudfType × Values) :=
  if result.1 = otherwise.1 then
    .ok (result.1, fun row => if check row then result.2 row else otherwise.2 row)
  else .error unsupported

variable (columns : List GPUColumnType)

/-- `Execute`; the cast takes the id of the return type alone. -/
def execute : Expression → Except Exception (CudfType × Values)
  | .reference index _ =>
    match columns[index]? with
    | none => .error (.internal "Attempted to access index within vector")
    | some type => do
      let cudfType ← columnCudfType type
      .ok (cudfType, fun row => (row[index]?).join)
  | .constant value type => makeColumnFromConstant value type
  | .cast child type => do
    let returnType ← getCudfType type
    let column ← execute child
    castColumn cudf returnType.ofId column
  | .function op (.constant value constant) right type => do
    let returnType ← getCudfType type
    let column ← execute right
    doLeftScalarBinaryOp cudf op value constant column returnType
  | .function op left (.constant value constant) type => do
    let returnType ← getCudfType type
    let column ← execute left
    doRightScalarBinaryOp cudf op column value constant returnType
  | .function op left right type => do
    let first ← execute left
    let second ← execute right
    let returnType ← getCudfType type
    binaryOperation cudf op first second returnType
  | .caseWhen check result otherwise _ => do
    let last ← execute otherwise
    let first ← execute result
    copyIfElse check first last

/-- An expression of a projection: a reference is passed through, another result is cast if its
type has not the id of the planned one, and set as a GPU column. -/
def executeProjection (e : Expression) : Except Exception (GPUColumnType × Values) :=
  match e with
  | .reference index _ =>
    match columns[index]? with
    | none => .error (.internal "Attempted to access index within vector")
    | some type => .ok (type, fun row => (row[index]?).join)
  | e => do
    initializeState e
    let column ← execute cudf columns e
    let returnType ← getCudfType e.returnType
    let column ← if column.1.sameId returnType then .ok column
      else castColumn cudf returnType column
    .ok (gpuColumnType column.1, column.2)

/-- The cells the collector delivers for the rows: what a vector of the planned type shows. The
NULL flags of each vector are those of the first. -/
def deliver (decimalCast : DecimalCast) (rows : List Row) (e : Expression) :
    Except Exception (List (Option Value)) := do
  let (type, values) ← executeProjection cudf columns e
  if deliverable e.returnType.planned type then
    let pieces := rows.map fun row => encode (getColumnTypeSize type) ((values row).getD 0)
    .ok ((List.range rows.length).map fun i =>
      ((rows[i % standardVectorSize]?).bind values).map fun _ =>
        shown decimalCast e.returnType.planned type pieces i)
  else .error nullPointer

end Expressions

end DecimalExpressions
