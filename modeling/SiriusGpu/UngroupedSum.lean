import Mathlib
import SiriusGpu.ResultChunks

/-!
# Sums of integers

The ungrouped SUM. The type of the accumulator is chosen by the type of the column and the
number of its rows; the one value is then delivered by the collector, which shows it under
the planned type. A reduction adds in some order, so its partial sums are the sums of parts
of the column.
-/

namespace UngroupedSum

open GpuMemory (Exception Bytes)
open GpuColumns (GPUColumnType getColumnTypeSize)
open ResultCollector ResultChunks

section Model

inductive IntegerType
  | int16 | int32 | int64
  deriving DecidableEq

/-- Values are at least `-bound` and below `bound`. -/
def IntegerType.bound : IntegerType → Int
  | .int16 => 2 ^ 15
  | .int32 => 2 ^ 31
  | .int64 => 2 ^ 63

def IntegerType.size : IntegerType → Nat
  | .int16 => 2
  | .int32 => 4
  | .int64 => 8

def IntegerType.columnType : IntegerType → GPUColumnType
  | .int16 => .int16
  | .int32 => .int32
  | .int64 => .int64

def IntegerType.Holds (type : IntegerType) (x : Int) : Prop := -type.bound ≤ x ∧ x < type.bound

instance (type : IntegerType) (x : Int) : Decidable (type.Holds x) :=
  inferInstanceAs (Decidable (_ ∧ _))

/-- The values that are not NULL. -/
def numbers (values : List (Option Int)) : List Int := values.reduceOption

/-- The largest `cudf::size_type`. -/
def int32Max : Nat := 2147483647

/-- A column the aggregate accepts; `none` is NULL. -/
structure IntegerColumn where
  type : IntegerType
  values : List (Option Int)
  holds : ∀ x ∈ numbers values, type.Holds x
  accepted : values.length ≤ int32Max

inductive SumFunction
  | sum | sumNoOverflow
  deriving DecidableEq

/-- The types a sum is planned with. -/
inductive PlannedSum
  | hugeint | bigint
  deriving DecidableEq

def PlannedSum.logicalType : PlannedSum → LogicalType
  | .hugeint => .hugeint
  | .bigint => .bigint

theorem int32_in_int64 {x : Int} (small : IntegerType.int32.Holds x) :
    IntegerType.int64.Holds x := by
  simp only [IntegerType.Holds, IntegerType.bound] at small ⊢
  omega

def convertInt32ToInt64 (values : List (Option Int))
    (holds : ∀ x ∈ numbers values, IntegerType.int32.Holds x)
    (accepted : values.length ≤ int32Max) : IntegerColumn where
  type := .int64
  values := values
  holds := fun x member => int32_in_int64 (holds x member)
  accepted := accepted

/-- What `HandleAggregateExpressionCuDF` passes on. -/
def prepared (function : SumFunction) (c : IntegerColumn) : IntegerColumn :=
  match function, c with
  | .sumNoOverflow, ⟨.int32, values, holds, accepted⟩ =>
    convertInt32ToInt64 values holds accepted
  | _, c => c

/-- The type the reduction is given. -/
def accumulatorType (type : IntegerType) (numRows : Nat) : IntegerType :=
  match type with
  | .int32 => if numRows > 1 then .int64 else .int32
  | .int16 =>
    if numRows > 2147483647 / 32767 then .int64
    else if numRows > 1 then .int32
    else .int16
  | .int64 => .int64

/-- `cudf::reduce` with the SUM aggregation: the bytes of the scalar. -/
abbrev Reduction := IntegerType → List (Option Int) → Bytes

/-- The branch of `cudf_aggregate` for SUM: the type of the result and its entries. -/
def cudfAggregate (reduce : Reduction) (c : IntegerColumn) : GPUColumnType × List Bytes :=
  if c.values.length = 0 then (c.type.columnType, [])
  else
    let type := accumulatorType c.type c.values.length
    (type.columnType, [reduce type c.values])

/-- The values the query delivers; the collector ends at a column without rows. -/
def delivered (reduce : Reduction) (cast : DecimalCast) (planned : PlannedSum)
    (function : SumFunction) (c : IntegerColumn) : Except Exception (List Value) :=
  let (type, entries) := cudfAggregate reduce (prepared function c)
  if entries.length = 0 then .ok []
  else if deliverable planned.logicalType type then
    .ok ((List.range entries.length).map fun row =>
      shown cast planned.logicalType type entries row)
  else .error (.internal "Vector::Reference used on vector of different type")

end Model

section Meaning

/-- Addition modulo the width of the accumulator. Without values the scalar is not set. -/
structure Wraps (reduce : Reduction) : Prop where
  width : ∀ type values, (reduce type values).length = type.size
  sum : ∀ type values, numbers values ≠ [] →
    reduce type values = encode type.size (numbers values).sum

/-- The accumulator chosen for a column. -/
def accumulator (function : SumFunction) (c : IntegerColumn) : IntegerType :=
  accumulatorType (prepared function c).type c.values.length

/-- The accumulator holds the sum of any part of the column. -/
def Wide (function : SumFunction) (c : IntegerColumn) : Prop :=
  ∀ part : List Int, part.Sublist (numbers c.values) → (accumulator function c).Holds part.sum

/-- The sum is accumulated without wrapping and delivered as it is, or an exception is
raised. -/
def Correct (reduce : Reduction) (cast : DecimalCast) (planned : PlannedSum)
    (function : SumFunction) (c : IntegerColumn) : Prop :=
  (∃ e, delivered reduce cast planned function c = .error e) ∨
    Wide function c ∧ (numbers c.values ≠ [] →
      delivered reduce cast planned function c = .ok [.number (numbers c.values).sum])

def negatives (xs : List Int) : List Int := xs.filter (· < 0)

def positives (xs : List Int) : List Int := xs.filter (0 < ·)

/-- The inputs for which the width suffices and the planned type shows the sign. -/
def Safe (planned : PlannedSum) (c : IntegerColumn) : Prop :=
  (c.type = .int64 → -2 ^ 63 ≤ (negatives (numbers c.values)).sum ∧
    (positives (numbers c.values)).sum < 2 ^ 63) ∧
  (planned = .hugeint → 0 ≤ (numbers c.values).sum ∧
    (c.type = .int16 → c.values.length = 65537 ∨ c.values.length = 65538 →
      -2 ^ 31 ≤ (negatives (numbers c.values)).sum))

end Meaning

section Parts

theorem sum_ge_negatives {part xs : List Int} (within : part.Sublist xs) :
    (negatives xs).sum ≤ part.sum := by
  induction within with
  | slnil => exact le_refl _
  | cons x _ ih =>
      by_cases negative : x < 0
      · simp only [negatives, List.filter_cons, negative, decide_true, if_true, List.sum_cons]
          at ih ⊢
        omega
      · simpa [negatives, List.filter_cons, negative] using ih
  | cons_cons x _ ih =>
      by_cases negative : x < 0
      · simpa [negatives, List.filter_cons, negative] using ih
      · simp only [negatives, List.filter_cons, negative, decide_false, Bool.false_eq_true,
          if_false, List.sum_cons] at ih ⊢
        omega

theorem sum_le_positives {part xs : List Int} (within : part.Sublist xs) :
    part.sum ≤ (positives xs).sum := by
  induction within with
  | slnil => exact le_refl _
  | cons x _ ih =>
      by_cases positive : 0 < x
      · simp only [positives, List.filter_cons, positive, decide_true, if_true, List.sum_cons]
          at ih ⊢
        omega
      · simpa [positives, List.filter_cons, positive] using ih
  | cons_cons x _ ih =>
      by_cases positive : 0 < x
      · simpa [positives, List.filter_cons, positive] using ih
      · simp only [positives, List.filter_cons, positive, decide_false, Bool.false_eq_true,
          if_false, List.sum_cons] at ih ⊢
        omega

/-- Every part has a sum within bounds when the negative and the positive values have. -/
theorem parts_iff (type : IntegerType) (xs : List Int) :
    (∀ part : List Int, part.Sublist xs → type.Holds part.sum) ↔
      -type.bound ≤ (negatives xs).sum ∧ (positives xs).sum < type.bound := by
  constructor
  · intro all
    have low := all (negatives xs) List.filter_sublist
    have high := all (positives xs) List.filter_sublist
    exact ⟨low.1, high.2⟩
  · intro bounds part within
    have low := sum_ge_negatives within
    have high := sum_le_positives within
    constructor <;> omega

theorem sum_ge {xs : List Int} {low : Int} (above : ∀ x ∈ xs, -low ≤ x) :
    -(low * xs.length) ≤ xs.sum := by
  induction xs with
  | nil => simp
  | cons x xs ih =>
      have rest := ih fun y member => above y (List.mem_cons_of_mem x member)
      have first := above x List.mem_cons_self
      rw [List.sum_cons, List.length_cons]
      push_cast
      linarith [mul_add low (xs.length : Int) 1]

theorem sum_le {xs : List Int} {high : Int} (below : ∀ x ∈ xs, x ≤ high) :
    xs.sum ≤ high * xs.length := by
  induction xs with
  | nil => simp
  | cons x xs ih =>
      have rest := ih fun y member => below y (List.mem_cons_of_mem x member)
      have first := below x List.mem_cons_self
      rw [List.sum_cons, List.length_cons]
      push_cast
      linarith [mul_add high (xs.length : Int) 1]

end Parts

section Width

variable {c : IntegerColumn} {function : SumFunction}

theorem prepared_values : (prepared function c).values = c.values := by
  obtain ⟨type, values, holds, accepted⟩ := c
  cases function <;> cases type <;> rfl

theorem numbers_length (values : List (Option Int)) : (numbers values).length ≤ values.length :=
  List.reduceOption_length_le values

theorem bound_pos (type : IntegerType) : 0 < type.bound := by cases type <;> decide

/-- The negative values can reach the lower limit of the type in every row. -/
theorem negatives_ge (c : IntegerColumn) :
    -(c.type.bound * c.values.length) ≤ (negatives (numbers c.values)).sum := by
  have positive := bound_pos c.type
  have each : ∀ x ∈ negatives (numbers c.values), -c.type.bound ≤ x :=
    fun x member => (c.holds x (List.mem_of_mem_filter member)).1
  have count : (negatives (numbers c.values)).length ≤ c.values.length :=
    (List.length_filter_le _ _).trans (numbers_length _)
  calc -(c.type.bound * c.values.length)
      ≤ -(c.type.bound * (negatives (numbers c.values)).length) := by
        have := mul_le_mul_of_nonneg_left (Int.ofNat_le.mpr count) positive.le
        omega
    _ ≤ (negatives (numbers c.values)).sum := sum_ge each

/-- The positive values end one below the upper limit. -/
theorem positives_le (c : IntegerColumn) :
    (positives (numbers c.values)).sum ≤ (c.type.bound - 1) * c.values.length := by
  have positive := bound_pos c.type
  have each : ∀ x ∈ positives (numbers c.values), x ≤ c.type.bound - 1 := by
    intro x member
    have := (c.holds x (List.mem_of_mem_filter member)).2
    omega
  have count : (positives (numbers c.values)).length ≤ c.values.length :=
    (List.length_filter_le _ _).trans (numbers_length _)
  calc (positives (numbers c.values)).sum
      ≤ (c.type.bound - 1) * (positives (numbers c.values)).length := sum_le each
    _ ≤ (c.type.bound - 1) * c.values.length :=
        mul_le_mul_of_nonneg_left (Int.ofNat_le.mpr count) (by omega)

theorem wide_iff_sums : Wide function c ↔
    -(accumulator function c).bound ≤ (negatives (numbers c.values)).sum ∧
      (positives (numbers c.values)).sum < (accumulator function c).bound :=
  parts_iff _ _

/-- What the threshold misses: the lower end of INT16 in the two row counts below it. -/
theorem wide_iff (function : SumFunction) (c : IntegerColumn) : Wide function c ↔
    (c.type = .int64 → -2 ^ 63 ≤ (negatives (numbers c.values)).sum ∧
      (positives (numbers c.values)).sum < 2 ^ 63) ∧
    (c.type = .int16 → c.values.length = 65537 ∨ c.values.length = 65538 →
      -2 ^ 31 ≤ (negatives (numbers c.values)).sum) := by
  have low := negatives_ge c
  have high := positives_le c
  have rows := c.accepted
  rw [wide_iff_sums]
  obtain ⟨type, values, holds, accepted⟩ := c
  simp only [int32Max] at low high rows
  cases type with
  | int16 =>
      have same : (prepared function ⟨.int16, values, holds, accepted⟩).type = .int16 := by
        cases function <;> rfl
      simp only [accumulator, same, accumulatorType, IntegerType.bound] at low high ⊢
      by_cases many : values.length > 2147483647 / 32767
      · simp only [many, if_true, reduceCtorEq, false_implies, true_and, true_implies]
        constructor
        · omega
        · omega
      · by_cases some : values.length > 1
        · simp only [many, some, if_true, if_false, reduceCtorEq, false_implies, true_and,
            true_implies]
          constructor <;> omega
        · simp only [many, some, if_false, reduceCtorEq, false_implies, true_and,
            true_implies]
          constructor <;> omega
  | int32 =>
      simp only [reduceCtorEq, false_implies, and_self, iff_true]
      simp only [IntegerType.bound] at low high
      cases function with
      | sum =>
          simp only [accumulator, prepared, accumulatorType]
          by_cases some : values.length > 1
          · simp only [some, if_true, IntegerType.bound]
            omega
          · simp only [some, if_false, IntegerType.bound]
            omega
      | sumNoOverflow =>
          simp only [accumulator, prepared, convertInt32ToInt64, accumulatorType, IntegerType.bound]
          omega
  | int64 =>
      have same : (prepared function ⟨.int64, values, holds, accepted⟩).type = .int64 := by
        cases function <;> rfl
      simp only [accumulator, same, accumulatorType, IntegerType.bound, reduceCtorEq, false_implies,
        true_implies, and_true]

end Width

section Delivery

variable {reduce : Reduction} {cast : DecimalCast} {planned : PlannedSum}
  {function : SumFunction} {c : IntegerColumn}

theorem columnType_size (type : IntegerType) : getColumnTypeSize type.columnType = type.size := by
  cases type <;> rfl

theorem signed_sum {type : IntegerType} {x : Int} (holds : type.Holds x) :
    signed (encode type.size x) = x := by
  obtain ⟨low, high⟩ := holds
  cases type <;> simp only [IntegerType.bound] at low high <;>
    exact signed_encode _ (by norm_num [IntegerType.size]; omega)
      (by norm_num [IntegerType.size]; omega)

theorem deliverable_sum (planned : PlannedSum) (type : IntegerType) :
    deliverable planned.logicalType type.columnType =
      decide (planned = .bigint → type = .int64) := by
  cases planned <;> cases type <;> rfl

theorem cudfAggregate_eq (rows : c.values.length ≠ 0) :
    cudfAggregate reduce (prepared function c) =
      ((accumulator function c).columnType, [reduce (accumulator function c) c.values]) := by
  rw [cudfAggregate, prepared_values, if_neg rows]
  rfl

theorem delivered_eq (rows : c.values.length ≠ 0) :
    delivered reduce cast planned function c =
      if planned = .bigint → accumulator function c = .int64 then
        .ok [shown cast planned.logicalType (accumulator function c).columnType
          [reduce (accumulator function c) c.values] 0]
      else .error (.internal "Vector::Reference used on vector of different type") := by
  simp only [delivered, cudfAggregate_eq rows, deliverable_sum, decide_eq_true_eq]
  rfl

/-- A sum that fits is shown as it is, except that `HUGEINT` shows no sign. -/
theorem shown_sum (wraps : Wraps reduce) {type : IntegerType} {values : List (Option Int)}
    (some : numbers values ≠ []) (fits : type.Holds (numbers values).sum)
    (typed : planned = .bigint → type = .int64) :
    shown cast planned.logicalType type.columnType [reduce type values] 0 =
        .number (numbers values).sum ↔
      (planned = .hugeint → 0 ≤ (numbers values).sum) := by
  have inside : 0 < [reduce type values].length := Nat.zero_lt_one
  have widths : ∀ piece ∈ [reduce type values],
      piece.length = getColumnTypeSize type.columnType := by
    intro piece member
    rw [List.mem_singleton.mp member, columnType_size]
    exact wraps.width type values
  have value : signed (reduce type values) = (numbers values).sum := by
    rw [wraps.sum type values some]
    exact signed_sum fits
  have own : valueOf type.columnType (reduce type values) = .number (numbers values).sum := by
    have width := wraps.width type values
    rw [← value]
    cases type <;> exact if_pos width
  rw [← own]
  cases planned with
  | hugeint =>
      have integer : type.columnType = .int16 ∨ type.columnType = .int32 ∨
          type.columnType = .int64 := by cases type <;> decide
      have shows : shown cast .hugeint type.columnType [reduce type values] 0 = _ ↔ _ :=
        shown_hugeint inside integer widths
      rw [List.getElem_cons_zero, value] at shows
      simpa [PlannedSum.logicalType] using shows
  | bigint =>
      obtain rfl := typed rfl
      have shows : shown cast .bigint IntegerType.int64.columnType [reduce .int64 values] 0 = _ :=
        shown_same inside (by decide) rfl rfl rfl widths
      simpa [PlannedSum.logicalType] using shows

/-- SUM is exact or raises exactly for the safe inputs. -/
theorem correct_iff_safe (wraps : Wraps reduce) :
    Correct reduce cast planned function c ↔ Safe planned c := by
  have whole (wide : Wide function c) : (accumulator function c).Holds (numbers c.values).sum :=
    wide _ (List.Sublist.refl _)
  have wideAccumulator : c.type = .int64 → accumulator function c = .int64 := by
    obtain ⟨type, values, holds, accepted⟩ := c
    rintro rfl
    cases function <;> rfl
  by_cases rows : c.values.length = 0
  · have none : numbers c.values = [] := by rw [List.length_eq_zero_iff.mp rows]; rfl
    have wide : Wide function c := by
      rw [wide_iff, none, rows]
      simp [negatives, positives]
    constructor
    · intro _
      rw [Safe, none, rows]
      simp [negatives, positives]
    · intro _
      exact Or.inr ⟨wide, fun some => absurd none some⟩
  · by_cases typed : planned = .bigint → accumulator function c = .int64
    · have run : delivered reduce cast planned function c = _ := delivered_eq rows
      rw [if_pos typed] at run
      have exact_iff (wide : Wide function c) : (numbers c.values ≠ [] →
          delivered reduce cast planned function c = .ok [.number (numbers c.values).sum]) ↔
          (planned = .hugeint → 0 ≤ (numbers c.values).sum) := by
        by_cases none : numbers c.values = []
        · simp [none]
        · have shows : shown cast planned.logicalType _ _ 0 = _ ↔ _ :=
            shown_sum wraps none (whole wide) typed
          rw [run]
          simpa [none] using shows
      have narrow (wide : c.type = .int16 ∧
          (c.values.length = 65537 ∨ c.values.length = 65538)) : planned = .hugeint := by
        cases planned with
        | hugeint => rfl
        | bigint =>
            have large := typed rfl
            obtain ⟨type, values, holds, accepted⟩ := c
            obtain ⟨rfl, few⟩ := wide
            cases function <;> rcases few with few | few <;>
              simp [accumulator, prepared, accumulatorType, few] at large
      have split : Correct reduce cast planned function c ↔
          Wide function c ∧ (planned = .hugeint → 0 ≤ (numbers c.values).sum) := by
        constructor
        · rintro (⟨e, raised⟩ | ⟨wide, value⟩)
          · rw [run] at raised
            cases raised
          · exact ⟨wide, (exact_iff wide).mp value⟩
        · rintro ⟨wide, sign⟩
          exact Or.inr ⟨wide, (exact_iff wide).mpr sign⟩
      rw [split, wide_iff]
      constructor
      · rintro ⟨⟨large, small⟩, sign⟩
        exact ⟨large, fun planned => ⟨sign planned, small⟩⟩
      · rintro ⟨large, safe⟩
        exact ⟨⟨large, fun type few => (safe (narrow ⟨type, few⟩)).2 type few⟩,
          fun planned => (safe planned).1⟩
    · have run : delivered reduce cast planned function c = _ := delivered_eq rows
      rw [if_neg typed] at run
      have raised : Correct reduce cast planned function c := Or.inl ⟨_, run⟩
      have safe : Safe planned c := by
        constructor
        · intro type
          exact absurd (fun _ => wideAccumulator type) typed
        · rintro rfl
          exact absurd (fun absurd => PlannedSum.noConfusion absurd) typed
      exact iff_of_true raised safe

end Delivery

section Witness

/-- A reduction in one accumulator. -/
def wrapping : Reduction := fun type values => encode type.size (numbers values).sum

theorem wrapping_wraps : Wraps wrapping := by
  constructor
  · intro type values
    exact bytesOf_length _ _
  · intro type values _
    rfl

def smallColumn : IntegerColumn where
  type := .int16
  values := [some 32767, none, some 1]
  holds := by decide
  accepted := by decide

/-- Two values whose sum does not fit their own type. -/
theorem small_sum_correct : Correct wrapping rescale .hugeint .sum smallColumn :=
  (correct_iff_safe wrapping_wraps).mpr (by
    constructor
    · intro wrong
      cases wrong
    · intro _
      constructor
      · decide
      · intro _ few
        exact absurd few (by decide))

theorem lowest_holds : ∀ x ∈ numbers (List.replicate 65537 (some (-32768))),
    IntegerType.int16.Holds x := by
  intro x member
  obtain ⟨_, same⟩ := List.mem_replicate.mp (List.reduceOption_mem_iff.mp member)
  cases same
  decide

theorem lowest_accepted : (List.replicate 65537 (some (-32768 : Int))).length ≤ int32Max := by
  rw [List.length_replicate]
  decide

/-- The first number of rows whose lowest values do not fit 32 bits. -/
def lowest : IntegerColumn where
  type := .int16
  values := List.replicate 65537 (some (-32768))
  holds := lowest_holds
  accepted := lowest_accepted

/-- They are added up in 32 bits. -/
theorem lowest_wraps : ¬ Correct wrapping rescale .hugeint .sum lowest := by
  have count : lowest.values.length = 65537 := List.length_replicate
  have values : numbers lowest.values = List.replicate 65537 (-32768) :=
    List.filterMap_replicate_of_some rfl
  have sum : (negatives (numbers lowest.values)).sum = -2147516416 := by
    rw [values, negatives, List.filter_replicate, if_pos (by decide), List.sum_replicate]
    norm_num
  rintro (⟨e, raised⟩ | ⟨wide, -⟩)
  · have run : delivered wrapping rescale .hugeint .sum lowest = _ := delivered_eq (by omega)
    rw [if_pos nofun, raised] at run
    cases run
  · have fits := ((wide_iff .sum lowest).mp wide).2 rfl (Or.inl count)
    omega

end Witness

end UngroupedSum
