import SiriusGpu.CudfColumns
import SiriusGpu.ResultCollector

/-!
# Numeric types

The exact numeric types of a plan and those of cudf, which carry a scale.
-/

namespace NumericTypes

open GpuMemory GpuColumns CudfColumns ResultCollector

section Types

/-- The exact numeric types of a plan; `other` integers have no type on the GPU. -/
inductive NumericType
  | smallint | integer | bigint | hugeint | other
  | decimal (width scale : Nat)
  deriving DecidableEq, Repr

def NumericType.planned : NumericType → LogicalType
  | .smallint => .smallint
  | .integer => .integer
  | .bigint => .bigint
  | .hugeint => .hugeint
  | .other => .other
  | .decimal width scale => .decimal width scale

def NumericType.scale : NumericType → Nat
  | .decimal _ scale => scale
  | _ => 0

/-- The raw integers of a type. -/
def NumericType.Holds : NumericType → Int → Prop
  | .smallint, raw => -2 ^ 15 ≤ raw ∧ raw < 2 ^ 15
  | .integer, raw => -2 ^ 31 ≤ raw ∧ raw < 2 ^ 31
  | .bigint, raw => -2 ^ 63 ≤ raw ∧ raw < 2 ^ 63
  | .hugeint, raw => -2 ^ 127 ≤ raw ∧ raw < 2 ^ 127
  | .other, _ => False
  | .decimal width _, raw => |raw| < 10 ^ width

instance (t : NumericType) (raw : Int) : Decidable (t.Holds raw) := by
  cases t <;> unfold NumericType.Holds <;> infer_instance

/-- The numeric types of cudf; `scale` is the negated scale of cudf. -/
inductive CudfType
  | int16 | int32 | int64
  | decimal32 (scale : Nat) | decimal64 (scale : Nat) | decimal128 (scale : Nat)
  deriving DecidableEq, Repr

namespace CudfType

def size : CudfType → Nat
  | .int16 => 2
  | .int32 | .decimal32 _ => 4
  | .int64 | .decimal64 _ => 8
  | .decimal128 _ => 16

def scale : CudfType → Nat
  | .decimal32 scale | .decimal64 scale | .decimal128 scale => scale
  | _ => 0

/-- `cudf::data_type{type.id()}` -/
def ofId : CudfType → CudfType
  | .decimal32 _ => .decimal32 0
  | .decimal64 _ => .decimal64 0
  | .decimal128 _ => .decimal128 0
  | type => type

def sameId (a b : CudfType) : Bool := a.ofId = b.ofId

/-- The values a type has a representation for. -/
def Fits (type : CudfType) (raw : Int) : Prop :=
  -(256 ^ type.size : Int) ≤ 2 * raw ∧ 2 * raw < 256 ^ type.size

instance (type : CudfType) (raw : Int) : Decidable (type.Fits raw) := by
  unfold Fits
  infer_instance

def value (type : CudfType) (raw : Int) : ℚ := raw / 10 ^ type.scale

end CudfType

def getCudfType : NumericType → Except Exception CudfType
  | .smallint => .ok .int16
  | .integer => .ok .int32
  | .bigint | .hugeint => .ok .int64
  | .other => .error (.invalidInput "GetCudfType: Unsupported duckdb type: %d")
  | .decimal width scale =>
    match decimalTypeSize width with
    | 4 => .ok (.decimal32 scale)
    | 8 => .ok (.decimal64 scale)
    | 16 => .ok (.decimal128 scale)
    | _ => .error (.invalidInput "GetCudfType: Unsupported duckdb decimal physical type: %d")

/-- The type `convertToCudfColumn` gives a numeric column. -/
def columnCudfType : GPUColumnType → Except Exception CudfType
  | .int16 => .ok .int16
  | .int32 => .ok .int32
  | .int64 => .ok .int64
  | .decimal width scale =>
    match decimalTypeSize width with
    | 4 => .ok (.decimal32 scale)
    | 8 => .ok (.decimal64 scale)
    | 16 => .ok (.decimal128 scale)
    | _ => .error (unsupportedType (.decimal width scale))
  | type => .error (unsupportedType type)

/-- The type `setFromCudfColumn` gives a column. -/
def gpuColumnType : CudfType → GPUColumnType
  | .int16 => .int16
  | .int32 => .int32
  | .int64 => .int64
  | .decimal32 scale => .decimal 9 scale
  | .decimal64 scale => .decimal 18 scale
  | .decimal128 scale => .decimal 38 scale

end Types

end NumericTypes
