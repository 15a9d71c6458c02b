import Mathlib
import SiriusGpu.NumericTypes

/-!
# Decimal scalars

A decimal constant is made a scalar of the type of the other operand before the operation. A value
above the type is refused, one below it is cut.
-/

namespace DecimalScalars

open GpuMemory NumericTypes

section Model

/-- The texts of the two members of the family. -/
structure Texts where
  tooGreat32 : String
  tooGreat64 : String
  notDecimal : String

/-- A value of the constant's type as a scalar of the type of the other column. -/
def scalarFor (texts : Texts) (value : Int) (constant column : CudfType) :
    Except Exception (CudfType × Int) :=
  if column.sameId constant then .ok (constant, value)
  else match column with
    | .decimal32 _ =>
      if value > 2 ^ 31 - 1 then .error (.internal texts.tooGreat32)
      else .ok (.decimal32 constant.scale, value.bmod (2 ^ 32))
    | .decimal64 _ =>
      if value > 2 ^ 63 - 1 then .error (.internal texts.tooGreat64)
      else .ok (.decimal64 constant.scale, value.bmod (2 ^ 64))
    | .decimal128 _ => .ok (.decimal128 constant.scale, value.bmod (2 ^ 128))
    | _ => .error (.internal texts.notDecimal)

/-- The scalar of `DoLeftScalarBinaryOp`. -/
def leftDecimalScalar (leftValue : Int) (left right : CudfType) :
    Except Exception (CudfType × Int) :=
  scalarFor {
    tooGreat32 := "Cannot cast left decimal scalar to decimal32, value greater than INT32_MAX"
    tooGreat64 := "Cannot cast left decimal scalar to decimal64, value greater than INT64_MAX"
    notDecimal :=
      "Right column is not decimal with left decimal constant in `DoLeftScalarBinaryOp`: %d" }
    leftValue left right

/-- The scalar of `DoRightScalarBinaryOp`. -/
def rightDecimalScalar (left : CudfType) (rightValue : Int) (right : CudfType) :
    Except Exception (CudfType × Int) :=
  scalarFor {
    tooGreat32 := "Cannot cast right decimal scalar to decimal32, value greater than INT32_MAX"
    tooGreat64 := "Cannot cast right decimal scalar to decimal64, value greater than INT64_MAX"
    notDecimal :=
      "Left column is not decimal with right decimal constant in `DoRightScalarBinaryOp`: %d" }
    rightValue right left

end Model

section Meaning

def isDecimal : CudfType → Bool
  | .decimal32 _ | .decimal64 _ | .decimal128 _ => true
  | _ => false

/-- A scalar is the number of the constant, with its scale; or there is none. -/
def Kept (value : Int) (constant : CudfType) : Except Exception (CudfType × Int) → Prop
  | .ok (type, raw) => raw = value ∧ type.scale = constant.scale
  | .error _ => True

instance (value : Int) (constant : CudfType) (scalar : Except Exception (CudfType × Int)) :
    Decidable (Kept value constant scalar) := by
  cases scalar <;> unfold Kept <;> infer_instance

/-- A value below the numbers of a narrower type. -/
def Below (value : Int) (constant column : CudfType) : Prop :=
  isDecimal column = true ∧ column.size < constant.size ∧ 2 * value < -256 ^ column.size

instance (value : Int) (constant column : CudfType) : Decidable (Below value constant column) :=
  inferInstanceAs (Decidable (_ ∧ _ ∧ _))

end Meaning

section Scalars

variable {texts : Texts} {value : Int} {constant column : CudfType}

theorem bmod_fits {bits : Nat} (low : -2 ^ bits ≤ value) (high : value < 2 ^ bits) :
    value.bmod (2 ^ (bits + 1)) = value := by
  refine Int.bmod_eq_of_le_mul_two ?_ ?_ <;> push_cast <;> omega

/-- What is cut off a value below the type is a multiple of 2^bits. -/
theorem bmod_below {bits : Nat} (below : value < -2 ^ bits) :
    value.bmod (2 ^ (bits + 1)) ≠ value := by
  have range := @Int.le_bmod value (2 ^ (bits + 1)) (by positivity)
  push_cast at range
  omega

theorem same_kept (same : column.sameId constant = true) :
    Kept value constant (scalarFor texts value constant column) := by
  unfold scalarFor
  rw [if_pos same]
  exact ⟨rfl, rfl⟩

theorem size_of_same (same : column.sameId constant = true) : column.size = constant.size := by
  have ids : column.ofId = constant.ofId := of_decide_eq_true same
  have sizes : ∀ type : CudfType, type.ofId.size = type.size := fun type => by cases type <;> rfl
  rw [← sizes column, ids, sizes constant]

/-- With the upper bound checked, a cut value is kept exactly when it is not below the type. -/
theorem cut_kept_iff {bits : Nat} {text : String} {type : CudfType}
    (scale : type.scale = constant.scale) :
    Kept value constant (if value > 2 ^ bits - 1 then .error (.internal text)
      else .ok (type, value.bmod (2 ^ (bits + 1)))) ↔ ¬ value < -2 ^ bits := by
  have positive : (0 : Int) < 2 ^ bits := by positivity
  by_cases great : value > 2 ^ bits - 1
  · rw [if_pos great]
    exact iff_of_true trivial (by omega)
  · rw [if_neg great]
    constructor
    · rintro ⟨kept, -⟩ below
      exact bmod_below below kept
    · intro above
      exact ⟨bmod_fits (by omega) (by omega), scale⟩

theorem fits_widest (held : constant.Fits value) : -2 ^ 127 ≤ value ∧ value < 2 ^ 127 := by
  cases constant <;> simp_all [CudfType.size, CudfType.Fits] <;> omega

/-- A scalar of another type is the constant's number exactly when it is not below the type. -/
theorem scalarFor_kept_iff (decimal : isDecimal constant = true) (held : constant.Fits value) :
    Kept value constant (scalarFor texts value constant column) ↔
      ¬ Below value constant column := by
  by_cases same : column.sameId constant = true
  · have equal := size_of_same same
    exact iff_of_true (same_kept same) fun below => absurd below.2.1 (by omega)
  unfold scalarFor
  rw [if_neg same]
  cases column with
  | decimal32 scale =>
    refine (@cut_kept_iff value constant 31 _ (.decimal32 constant.scale) rfl).trans (not_congr ?_)
    have narrower : 4 < constant.size := by
      cases constant <;> simp_all [isDecimal, CudfType.size, CudfType.sameId, CudfType.ofId]
    rw [Below, CudfType.size]
    exact ⟨fun below => ⟨rfl, narrower, by omega⟩, fun below => by
      have less := below.2.2
      omega⟩
  | decimal64 scale =>
    refine (@cut_kept_iff value constant 63 _ (.decimal64 constant.scale) rfl).trans (not_congr ?_)
    simp only [Below, isDecimal, CudfType.size, true_and]
    cases constant <;>
      simp_all [isDecimal, CudfType.size, CudfType.sameId, CudfType.ofId, CudfType.Fits] <;> omega
  | decimal128 scale =>
    have inside := fits_widest held
    refine iff_of_true ⟨bmod_fits inside.1 inside.2, rfl⟩ fun below => ?_
    have widest : constant.size ≤ 16 := by cases constant <;> simp [CudfType.size]
    exact absurd below.2.1 (Nat.not_lt.mpr widest)
  | int16 => simp [Kept, Below, isDecimal]
  | int32 => simp [Kept, Below, isDecimal]
  | int64 => simp [Kept, Below, isDecimal]

/-- On both sides, for constants of any size, value and scale, and any other column. -/
theorem scalars_kept_iff (constant column : CudfType) (decimal : isDecimal constant = true)
    (value : Int) (held : constant.Fits value) :
    (Kept value constant (leftDecimalScalar value constant column) ∧
      Kept value constant (rightDecimalScalar column value constant)) ↔
      ¬ Below value constant column := by
  rw [leftDecimalScalar, rightDecimalScalar, scalarFor_kept_iff decimal held,
    scalarFor_kept_iff decimal held, and_self]

/-- A scalar of 64 bits that fits 32. -/
theorem small_kept : Kept (-5) (.decimal64 2) (leftDecimalScalar (-5) (.decimal64 2)
      (.decimal32 1)) ∧
    Kept (-5) (.decimal64 2) (rightDecimalScalar (.decimal32 1) (-5) (.decimal64 2)) :=
  (scalars_kept_iff (.decimal64 2) (.decimal32 1) rfl (-5) (by decide)).mpr (by decide)

/-- `-2147483649` becomes `2147483647`. -/
theorem great_negative_cut : ¬ ∀ (constant column : CudfType), isDecimal constant = true →
    ∀ value : Int, constant.Fits value →
      Kept value constant (leftDecimalScalar value constant column) ∧
        Kept value constant (rightDecimalScalar column value constant) := by
  intro kept
  have left := (kept (.decimal64 0) (.decimal32 0) rfl (-2147483649) (by decide)).1
  revert left
  decide +kernel

end Scalars

end DecimalScalars
