import Mathlib
import SiriusGpu.ColumnFormat
import SiriusGpu.DuplicateElimination
import SiriusGpu.GroupedRows
import SiriusGpu.UngroupedAggregate

/-!
# Grouped aggregates

`GPUPhysicalGroupedAggregate`: each sunk relation is grouped by cudf for itself, and the groups
are appended to those of the sinks before, column by column and without their masks. A sink
whose first column gives no rows aggregates nothing.

The groupby of cudf is a parameter. There is one grouping set.
-/

namespace GroupedAggregate

open GpuMemory (Exception Bytes)
open GpuColumns (GPUColumnType getColumnTypeSize)
open GpuExpressions (CudfColumn convertToCudfColumn convertToCudfColumn_inv setFromCudfColumn
  setFromCudfColumn_inv int32Max outOfBounds entryOf)
open ResultCollector (encode signed)
open AggregateInputs (Aggregate BoundAggregate AggregationType Slots readColumn columnSize
  starColumn nullPointer multipleChildren)
open UngroupedAggregate (present countBytes convertInt32ToInt64 widened withoutRows)
open ColumnValues FallibleMaps

section Cudf

inductive Aggregation
  | sum | mean | min | max | count | nunique
  deriving DecidableEq

structure AggregationRequest where
  aggregation : Aggregation
  values : CudfColumn

/-- The groupby of cudf, with or without the rows that have a NULL key. `aggregate` is the value
of some values of a type, and `canonical` stands for the values that are equal to a value. -/
structure Cudf where
  groupby : Bool → List CudfColumn → List AggregationRequest →
    Except Exception (List CudfColumn × List CudfColumn)
  getGroups : List (DuplicateElimination.Tuple Bytes) → DuplicateElimination.Groups Bytes
  castValue : GPUColumnType → GPUColumnType → Bytes → Bytes
  aggregate : Aggregation → GPUColumnType → List Bytes → Bytes
  canonical : GPUColumnType → Bytes → Bytes

variable (cudf : Cudf)

/-- The columns at a row. -/
def rowAt (columns : List CudfColumn) (row : Nat) : Row :=
  columns.map fun column => (column.values[row]?).join

def canonicalKey (types : List GPUColumnType) (key : Row) : Row :=
  List.zipWith (fun type value => Option.map (cudf.canonical type) value) types key

/-- A request over the rows of a group; counts are of 32 bits. -/
def requested (request : AggregationRequest) (rows : List Nat) : Option Bytes :=
  let values := present (rows.map fun row => (request.values.values[row]?).join)
  match request.aggregation with
  | .count => some (encode 4 values.length)
  | .nunique => some (encode 4 (values.map (cudf.canonical request.values.type)).dedup.length)
  | op => if values = [] then none else some (cudf.aggregate op request.values.type values)

/-- The groups of `count` rows in the columns of a result. -/
structure Grouped (keys : List CudfColumn) (requests : List AggregationRequest) (count : Nat)
    (out : List CudfColumn × List CudfColumn) (groups : Nat) : Prop where
  keyTypes : out.1.map (·.type) = keys.map (·.type)
  results : out.2.length = requests.length
  even : ∀ column ∈ out.1 ++ out.2, column.values.length = groups
  grouped : GroupedRows.Groups
    (fun row => canonicalKey cudf (keys.map (·.type)) (rowAt keys row))
    (fun rows => requests.map fun request => requested cudf request rows) (List.range count)
    ((List.range groups).map fun group =>
      (canonicalKey cudf (keys.map (·.type)) (rowAt out.1 group), rowAt out.2 group))

/-- The groupby is right; the sum of zeros is zero. -/
structure Documented : Prop where
  grouped : ∀ includeNulls keys requests count out, keys ≠ [] →
    (∀ column ∈ keys ++ requests.map (·.values), column.values.length = count) →
    (includeNulls = true ∨ ∀ column ∈ keys, none ∉ column.values) →
    cudf.groupby includeNulls keys requests = .ok out →
      ∃ groups, Grouped cudf keys requests count out groups
  zeros : ∀ n, cudf.aggregate .sum .int64 (List.replicate (n + 1) (countBytes 0)) = countBytes 0

end Cudf

section Model

variable (cudf : Cudf)

/-- The branches of `HandleGroupByAggregateCuDF`. -/
def aggregationType (aggregate : BoundAggregate) (c : Column) :
    Except Exception AggregationType :=
  if aggregate.distinct then
    if aggregate.name = "count" ∧ c.entries ≠ none then .ok .countDistinct
    else .error (.notImplemented "Grouped aggregate function (distinct) not supported")
  else if aggregate.name = "count" ∧ c.entries = none ∧ c.columnLength = 0 then .ok .count
  else if aggregate.name = "sum" ∧ c.entries = none ∧ c.columnLength = 0 then .ok .sum
  else if aggregate.name = "sum" ∧ c.entries ≠ none then .ok .sum
  else if aggregate.name = "sum_no_overflow" ∧ c.entries = none ∧ c.columnLength = 0 then .ok .sum
  else if aggregate.name = "sum_no_overflow" ∧ c.entries ≠ none then .ok .sum
  else if aggregate.name = "avg" ∧ c.entries ≠ none then .ok .average
  else if aggregate.name = "max" ∧ c.entries ≠ none then .ok .max
  else if aggregate.name = "min" ∧ c.entries ≠ none then .ok .min
  else if aggregate.name = "count_star" ∧ c.entries = none then .ok .countStar
  else if aggregate.name = "count" ∧ c.entries ≠ none then .ok .count
  else .error (.notImplemented "Grouped aggregate (not distinct) function not supported")

/-- `sum_no_overflow` of `INT32` is a sum of `INT64`. -/
def prepareSum (aggregate : BoundAggregate) (c : Column) : Column :=
  if aggregate.distinct = false ∧ aggregate.name = "sum_no_overflow" ∧ c.entries ≠ none ∧
    c.type = .int32 then widened c else c

/-- As many zeros as there are rows. -/
def zeroColumn (size : Nat) : CudfColumn := ⟨.int64, List.replicate size (some (countBytes 0))⟩

/-- The average of decimals is that of doubles. -/
def averageColumn (c : Column) : Except Exception Column :=
  match c.type with
  | .decimal _ _ =>
    if getColumnTypeSize c.type ≠ 8 then
      .error (.notImplemented "Only support decimal64 for decimal AVG group-by")
    else do
      let fromCudfColumnView ← convertToCudfColumn c
      setFromCudfColumn ⟨.float64, fromCudfColumnView.values.map
        (·.map (cudf.castValue fromCudfColumnView.type .float64))⟩ false
  | _ => .ok c

def request (size : Nat) (type : AggregationType) (c : Column) :
    Except Exception AggregationRequest :=
  if c.entries = none ∧ type = .count ∧ c.columnLength = 0 then .ok ⟨.sum, zeroColumn size⟩
  else if c.entries = none ∧ type = .sum ∧ c.columnLength = 0 then .ok ⟨.sum, zeroColumn size⟩
  else if c.entries = none ∧ type = .countStar ∧ c.columnLength ≠ 0 then
    .ok ⟨.count, zeroColumn size⟩
  else match type with
    | .sum => .mk .sum <$> convertToCudfColumn c
    | .average => do
      let c ← averageColumn cudf c
      .mk .mean <$> convertToCudfColumn c
    | .min => .mk .min <$> convertToCudfColumn c
    | .max => .mk .max <$> convertToCudfColumn c
    | .count => .mk .count <$> convertToCudfColumn c
    | .countDistinct => .mk .nunique <$> convertToCudfColumn c
    | .countStar | .first =>
      .error (.notImplemented "Aggregate function not supported in `cudf_groupby`")

/-- The first `int32_t`s in the data of a column. -/
def dataInt32 (column : CudfColumn) : List Bytes :=
  let data := (column.values.map (·.getD [])).flatten
  (List.range column.values.length).map fun i => ColumnFormat.slice data (i * 4) ((i + 1) * 4)

def convertInt32ToUInt64 (bits : Bytes) : Bytes := encode 8 (signed bits)

/-- A result of the groupby; counts are widened, whatever their type. -/
def resultColumn (type : AggregationType) (column : CudfColumn) : Except Exception Column :=
  if type = .count ∨ type = .countStar ∨ type = .countDistinct then
    .ok (plainColumn .int64 ((dataInt32 column).map fun bits => ⟨convertInt32ToUInt64 bits, true⟩)
      (8 * column.values.length) false)
  else setFromCudfColumn column false

def keyToCudf (c : Column) : Except Exception CudfColumn :=
  if c.entries = none then
    .error (.notImplemented "Group by on non-nullable column not supported")
  else convertToCudfColumn c

/-- Some key has a mask; one without invalid rows makes no difference. -/
def hasNullableKey (keys : List Column) : Bool :=
  keys.any fun c => c.shown.any fun e => !e.valid

/-- The result without rows keeps the data pointers. -/
def emptyKey (c : Column) : Column := { withoutRows c with isUnique := c.isUnique }

def emptyResult (type : AggregationType) (c : Column) : Column :=
  if type = .countStar ∨ type = .count then { withoutRows c with type := .int64 }
  else withoutRows c

/-- `cudf_groupby`. The number of rows is that of the last key. -/
def cudfGroupby (keys arguments : List Column) (types : List AggregationType) :
    Except Exception (List Column × List Column) :=
  match keys with
  | [] => .error outOfBounds
  | first :: _ =>
    if first.columnLength = 0 then
      .ok (keys.map emptyKey, List.zipWith emptyResult types arguments)
    else do
      let keysCudf ← keys.mapM keyToCudf
      let size := (keys.getLast?.map (·.columnLength)).getD 0
      let requests ← (types.zip arguments).mapM fun x => request cudf size x.1 x.2
      let (resultKeys, resultValues) ← cudf.groupby (hasNullableKey keys) keysCudf requests
      let keys ← (keys.zip resultKeys).mapM fun x => setFromCudfColumn x.2 x.1.isUnique
      let values ← (types.zip resultValues).mapM fun x => resultColumn x.1 x.2
      .ok (keys, values)

def handleGroupByAggregateCuDF (aggregates : List BoundAggregate) (keys arguments : List Column) :
    Except Exception (List Column × List Column) := do
  let types ← (aggregates.zip arguments).mapM fun x => aggregationType x.1 x.2
  cudfGroupby cudf keys (List.zipWith prepareSum aggregates arguments) types

/-- A key after the duplicate elimination. -/
def eliminatedKey (c : Column) (out : DuplicateElimination.KeyColumn Bytes) : Column :=
  match out.data with
  | none => { emptyColumn c.type with isUnique := out.isUnique }
  | some values =>
    plainColumn c.type (values.map entryOf) (bytesOf c.type (values.map entryOf)) out.isUnique

/-- `HandleDuplicateEliminationCuDF`. -/
def handleDuplicateEliminationCuDF (keys : List Column) : Except Exception (List Column) := do
  let out ← DuplicateElimination.cudfDuplicateElimination cudf.getGroups
    (keys.map fun c => ⟨c.entries.map (·.map Entry.value), c.isUnique⟩)
  .ok (List.zipWith eliminatedKey keys out)

section Sink

variable (groups : List Nat) (aggregates : List BoundAggregate)

def filtered : Exception := .notImplemented "Aggregates with filters not supported yet"

def tooLarge : Exception := .notImplemented
  "Group by column length or aggregate column length is too large for CuDF"

/-- The argument of an aggregate; `*` is a column without data. -/
def argumentColumn (columns : List Column) (aggregate : BoundAggregate) :
    Except Exception Column :=
  if aggregate.filter.isSome then .error filtered
  else match aggregate.children with
    | [] => .ok (starColumn columns)
    | [child] => readColumn columns child
    | _ => .error multipleChildren

/-- The columns that a sink adds to the result. -/
def sinkColumns (columns : List Column) : Except Exception (List Column) := do
  let keys ← groups.mapM (readColumn columns)
  let arguments ← aggregates.mapM (argumentColumn columns)
  if columnSize columns = 0 then .ok (keys ++ arguments)
  else match keys, arguments with
    | key :: _, [] =>
      if key.columnLength > int32Max then .error tooLarge
      else handleDuplicateEliminationCuDF cudf keys
    | key :: _, argument :: _ =>
      if key.columnLength > int32Max ∨ argument.columnLength > int32Max then .error tooLarge
      else do
        let (keys, values) ← handleGroupByAggregateCuDF cudf aggregates keys arguments
        .ok (keys ++ values)
    | [], _ => .error outOfBounds

/-- `CombineColumns`. The values are copied without the mask, so that what lies under a NULL
becomes a value. Without rows the new pointer is not set, and a column of another width is read
past its end. -/
def combineColumns (a b : Column) : Except Exception Column :=
  match a.type with
  | .int32 | .int64 | .float64 | .varchar =>
    if a.columnLength = 0 ∨ b.columnLength = 0 then .error .fault
    else if getColumnTypeSize b.type ≠ getColumnTypeSize a.type then .error .fault
    else
      let entries := (a.entries.getD [] ++ b.entries.getD []).map fun e => ⟨e.bits, true⟩
      .ok (plainColumn a.type entries (bytesOf a.type entries) (a.isUnique && b.isUnique))
  | _ => .error (.notImplemented "Unsupported sirius column type in `CombineColumns`")

/-- A column of the result after a sink. -/
def sinkColumn (slot : Option Column) (c : Column) : Except Exception (Option Column) :=
  match slot with
  | none => .ok (some c)
  | some old =>
    if c.entries ≠ none ∧ old.entries ≠ none then some <$> combineColumns old c
    else if c.entries ≠ none then .ok (some c)
    else .ok (some old)

/-- `Sink`. -/
def sink (slots : Slots) (columns : List Column) : Except Exception Slots := do
  let sunk ← sinkColumns cudf groups aggregates columns
  (slots.zip sunk).mapM fun x => sinkColumn x.1 x.2

/-- `GetData` passes on the columns with their masks. -/
def getData (slots : Slots) : Except Exception (List Column) :=
  slots.mapM fun slot => match slot with
    | some c => .ok c
    | none => .error nullPointer

/-- A run of the operator. -/
def run (inputs : List (List Column)) : Except Exception (List Column) := do
  let slots ← inputs.foldlM (sink cudf groups aggregates)
    (List.replicate (groups.length + aggregates.length) none)
  getData slots

end Sink

end Model

section Meaning

/-- The aggregates that are supported. -/
inductive Kind
  | countStar | count | countDistinct | sum | sumNoOverflow | average | min | max
  deriving DecidableEq

def Kind.name : Kind → String
  | .countStar => "count_star"
  | .count | .countDistinct => "count"
  | .sum => "sum"
  | .sumNoOverflow => "sum_no_overflow"
  | .average => "avg"
  | .min => "min"
  | .max => "max"

def Kind.type : Kind → AggregationType
  | .countStar => .countStar
  | .count => .count
  | .countDistinct => .countDistinct
  | .sum | .sumNoOverflow => .sum
  | .average => .average
  | .min => .min
  | .max => .max

def Kind.isSum (kind : Kind) : Bool := kind = .sum ∨ kind = .sumNoOverflow

/-- An aggregate of a column of the input. -/
def Kind.bound (kind : Kind) (child : Nat) : BoundAggregate where
  name := kind.name
  children := if kind = .countStar then [] else [child]
  filter := none
  distinct := kind = .countDistinct

def planned (plan : List (Kind × Nat)) : List BoundAggregate := plan.map fun x => x.1.bound x.2

variable (cudf : Cudf)

/-- The type an argument is aggregated in, and its values there. -/
def aggregatedIn (kind : Kind) (type : GPUColumnType) : GPUColumnType × (Bytes → Bytes) :=
  match kind, type with
  | .average, .decimal _ _ => (.float64, cudf.castValue type .float64)
  | .sumNoOverflow, .int32 => (.int64, convertInt32ToInt64)
  | _, _ => (type, id)

def aggregationOf : Kind → Aggregation
  | .countStar | .count => .count
  | .countDistinct => .nunique
  | .average => .mean
  | .min => .min
  | .max => .max
  | .sum | .sumNoOverflow => .sum

/-- The value SQL gives an aggregate of some values. -/
def sqlValue (kind : Kind) (type : GPUColumnType) (values : List (Option Bytes)) : Option Bytes :=
  match kind with
  | .countStar => some (countBytes values.length)
  | .count => some (countBytes (present values).length)
  | .countDistinct =>
    some (countBytes ((present values).map (cudf.canonical type)).dedup.length)
  | kind =>
    if present values = [] then none
    else some (cudf.aggregate (aggregationOf kind) (aggregatedIn cudf kind type).1
      ((present values).map (aggregatedIn cudf kind type).2))

variable (types : List GPUColumnType) (groups : List Nat) (plan : List (Kind × Nat))

def typeAt (index : Nat) : GPUColumnType := types.getD index .int64

def cellOf (row : Row) (index : Nat) : Option Bytes := (row[index]?).join

/-- The key of a row, up to the equality of values. -/
def keyOf (row : Row) : Row :=
  canonicalKey cudf (groups.map (typeAt types)) (groups.map (cellOf row))

/-- The values SQL gives the aggregates over some rows. -/
def answers (rows : List Row) : Row :=
  plan.map fun x => sqlValue cudf x.1 (typeAt types x.2) (rows.map fun row => cellOf row x.2)

/-- A row of the output: its key and its aggregates. -/
def split (row : Row) : Row × Row :=
  (canonicalKey cudf (groups.map (typeAt types)) (row.take groups.length), row.drop groups.length)

/-- The rows of the output; its first column gives their number. -/
def outputRows (out : List Column) : List (Row × Row) :=
  (rowsOf out ((out[0]?).elim 0 (·.columnLength))).map (split cudf types groups)

/-- The output is the GROUP BY of all rows that were sunk, in some order. -/
def IsGroupBy (relations : List Relation) (out : List Column) : Prop :=
  (outputRows cudf types groups out).Perm (GroupedRows.groupBy (keyOf cudf types groups)
    (answers cudf types plan) (relations.map Relation.rows).flatten)

/-- An argument without data. -/
def absent (r : Relation) (index : Nat) : Bool := (r.columns[index]?).any (·.entries.isNone)

/-- When the output is the GROUP BY: no key is in two sinks. One sink may have NULLs, but no sum
of a column without data; two sinks with rows may have no NULL, neither in a key nor as a
result. -/
def Exact (relations : List Relation) : Prop :=
  (relations.Pairwise fun r r' => GroupedRows.Apart (keyOf cudf types groups) r.rows r'.rows) ∧
    if (relations.filter (·.rowCount ≠ 0)).length ≤ 1 then
      ∀ r ∈ relations, r.rowCount ≠ 0 → ∀ x ∈ plan, x.1.isSum = true → absent r x.2 = false
    else ∀ r ∈ relations, ∀ row ∈ r.rows, none ∉ keyOf cudf types groups row ∧
      none ∉ answers cudf types plan (GroupedRows.members (keyOf cudf types groups) r.rows
        (keyOf cudf types groups row))

/-- What the inputs of the operator are promised: they have the columns of the plan, the first
gives the number of rows, and a key of a relation with rows has data. -/
structure Sinkable (r : Relation) : Prop where
  types : r.columns.map (·.type) = types
  sized : columnSize r.columns = r.rowCount
  keyed : r.rowCount ≠ 0 → ∀ group ∈ groups, ∀ c, r.columns[group]? = some c → c.entries ≠ none

end Meaning

section Columns

/-- A column of the result; without rows its data pointer is null. -/
structure Kept (c : Column) (values : List (Option Bytes)) : Prop where
  direct : c.rowIds = none
  columnLength : c.columnLength = values.length
  entries : c.entries = if values = [] then none else some (values.map entryOf)

/-- Columns of the result by their rows. -/
structure Holds (columns : List Column) (rows : List Row) : Prop where
  width : ∀ row ∈ rows, row.length = columns.length
  column : ∀ (i : Nat) c, columns[i]? = some c → Kept c (rows.map fun row => cellOf row i)

variable {c c' : Column} {values values' : List (Option Bytes)}

theorem entryOf_value (value : Option Bytes) : (entryOf value).value = value := by
  cases value <;> rfl

theorem Kept.shown (kept : Kept c values) : c.shown.map Entry.value = values := by
  rw [Column.shown, kept.entries, kept.direct]
  by_cases none : values = []
  · simp [none]
  · simp [none, Function.comp_def, entryOf_value]

theorem Kept.null_iff (kept : Kept c values) : c.entries = none ↔ values = [] := by
  rw [kept.entries]
  by_cases none : values = [] <;> simp [none]

/-- The rows of columns are those they hold. -/
theorem Holds.rowsOf {columns : List Column} {rows : List Row} (holds : Holds columns rows) :
    rowsOf columns rows.length = rows := by
  refine List.ext_getElem (by simp [ColumnValues.rowsOf]) fun j inside inside' => ?_
  have width := holds.width rows[j] (List.getElem_mem inside')
  refine List.ext_getElem (by simp [ColumnValues.rowsOf, width]) fun i here here' => ?_
  have column : i < columns.length := by rwa [width] at here'
  have kept := holds.column i columns[i] (List.getElem?_eq_getElem column)
  have cell : columns[i].cell j = ((rows.map fun row => cellOf row i)[j]?).join := by
    rw [Column.cell, ← kept.shown, List.getElem?_map]
    cases columns[i].shown[j]? <;> rfl
  simp only [ColumnValues.rowsOf, List.getElem_map, List.getElem_range]
  rw [cell, List.getElem?_map, List.getElem?_eq_getElem inside']
  simp [cellOf, List.getElem?_eq_getElem here']

/-- Rows of cudf as columns. -/
theorem values_of_range {values : List (Option Bytes)} {count : Nat}
    (length : values.length = count) :
    ((List.range count).map fun j => (values[j]?).join) = values := by
  refine List.ext_getElem (by simp [length]) fun j inside inside' => ?_
  simp [List.getElem?_eq_getElem inside']

theorem setFromCudfColumn_kept {column : CudfColumn} {isUnique : Bool}
    (run : setFromCudfColumn column isUnique = .ok c) : Kept c column.values := by
  obtain ⟨type, -, stored⟩ := bind_ok_iff.mp run
  by_cases none : column.values = []
  · simp only [none, List.map_nil, if_true] at stored
    cases stored
    rw [none]
    exact ⟨rfl, rfl, rfl⟩
  · simp only [List.map_eq_nil_iff, none, if_false] at stored
    cases stored
    exact ⟨rfl, List.length_map _, by rw [if_neg none]; rfl⟩

/-- A materialized column without rows. -/
theorem kept_empty (materialized : Materialized c c') (none : c.shown = []) : Kept c' [] where
  direct := materialized.direct
  columnLength := by rw [materialized.columnLength, none]; rfl
  entries := materialized.null.mpr none

end Columns

section Counts

theorem convert_encode {n : Nat} (small : n ≤ int32Max) :
    convertInt32ToUInt64 (encode 4 n) = countBytes n := by
  have bound : n ≤ 2147483647 := small
  rw [convertInt32ToUInt64, ResultCollector.signed_encode 4 (by omega) (by omega)]
  rfl

theorem convert_zero : convertInt32ToUInt64 (countBytes 0) = countBytes 0 := by decide

/-- A count that cudf has made, or the sum of zeros. -/
def Counting (column : CudfColumn) : Prop :=
  (∀ value ∈ column.values, ∃ bits, value = some bits ∧ bits.length = 4) ∨
    ∀ value ∈ column.values, value = some (countBytes 0)

/-- Counts are read as they are; of zeros only a half is read. -/
theorem convert_dataInt32 {column : CudfColumn} (counting : Counting column) :
    ((dataInt32 column).map fun bits => some (convertInt32ToUInt64 bits)) =
      column.values.map (Option.map convertInt32ToUInt64) := by
  rcases counting with words | zeros
  · refine List.ext_getElem (by simp [dataInt32]) fun i inside inside' => ?_
    have here : i < column.values.length := by simpa using inside'
    obtain ⟨bits, same, -⟩ := words _ (List.getElem_mem here)
    have widths : ∀ piece ∈ column.values.map (·.getD []), piece.length = 4 := by
      intro piece member
      obtain ⟨value, inside, rfl⟩ := List.mem_map.mp member
      obtain ⟨bits, rfl, width⟩ := words value inside
      exact width
    simp only [dataInt32, List.getElem_map, List.getElem_range]
    rw [ColumnFormat.slice_multiple _ widths (by simpa using here)]
    simp [same]
  · have all : column.values = List.replicate column.values.length (some (countBytes 0)) :=
      List.eq_replicate_iff.mpr ⟨rfl, zeros⟩
    have data : (column.values.map (·.getD [])).flatten =
        List.replicate (column.values.length * 8) 0 := by
      rw [all, List.map_replicate]
      have zero : (some (countBytes 0)).getD [] = List.replicate 8 0 := by decide
      rw [zero, List.flatten_replicate_replicate, List.length_replicate]
    refine List.ext_getElem (by simp [dataInt32]) fun i inside inside' => ?_
    have here : i < column.values.length := by simpa using inside'
    simp only [dataInt32, List.getElem_map, List.getElem_range]
    rw [zeros _ (List.getElem_mem here), Option.map_some, convert_zero, data,
      ColumnFormat.slice, List.drop_replicate, List.take_replicate]
    have half : min ((i + 1) * 4 - i * 4) (column.values.length * 8 - i * 4) = 4 := by omega
    rw [half]
    decide

end Counts

section Requests

variable {cudf : Cudf} {r : Relation} {kind : Kind} {child : Nat} {c c' : Column}
  {type : AggregationType} {asked : AggregationRequest}

theorem aggregationType_kind (run : aggregationType (kind.bound child) c = .ok type) :
    type = kind.type ∧
      (c.entries = none → kind = .countStar ∨ kind = .count ∨ kind.isSum = true) := by
  by_cases null : c.entries = none <;> by_cases empty : c.columnLength = 0 <;> cases kind <;>
    simp_all [aggregationType, Kind.bound, Kind.name, Kind.type, Kind.isSum]

/-- The column a sum is over. -/
theorem prepareSum_inv (sum : kind.isSum = true) (direct : c.rowIds = none)
    (data : c.entries ≠ none) :
    (prepareSum (kind.bound child) c).entries ≠ none ∧
      (prepareSum (kind.bound child) c).rowIds = none ∧
      (prepareSum (kind.bound child) c).type = (aggregatedIn cudf kind c.type).1 ∧
      (prepareSum (kind.bound child) c).shown.map Entry.value =
        (c.shown.map Entry.value).map (·.map (aggregatedIn cudf kind c.type).2) := by
  obtain ⟨es, here⟩ := Option.ne_none_iff_exists'.mp data
  by_cases wide : kind = .sumNoOverflow ∧ c.type = .int32
  · obtain ⟨rfl, type⟩ := wide
    rw [prepareSum, if_pos ⟨rfl, rfl, data, type⟩]
    refine ⟨by simp [widened, here], direct, by simp [widened, aggregatedIn, type], ?_⟩
    simp only [widened, here, direct, aggregatedIn, type, Column.shown, Option.map_some,
      List.map_map]
    refine List.map_congr_left fun e _ => ?_
    cases valid : e.valid <;> simp [UngroupedAggregate.widenEntry, Entry.value, valid]
  · have plain : aggregatedIn cudf kind c.type = (c.type, id) := by
      unfold aggregatedIn
      split
      · cases sum
      · exact absurd ⟨rfl, by assumption⟩ wide
      · rfl
    rw [prepareSum, if_neg]
    · simp [plain, direct, data]
    · rintro ⟨-, name, -, type⟩
      refine wide ⟨?_, type⟩
      cases kind <;> simp_all [Kind.bound, Kind.name, Kind.isSum]

theorem prepareSum_other (other : kind ≠ .sumNoOverflow) :
    prepareSum (kind.bound child) c = c := by
  rw [prepareSum, if_neg]
  rintro ⟨-, name, -⟩
  cases kind <;> simp_all [Kind.bound, Kind.name]

/-- The column an average is over. -/
theorem averageColumn_inv (direct : c.rowIds = none) (run : averageColumn cudf c = .ok c') :
    c'.rowIds = none ∧ c'.type = (aggregatedIn cudf .average c.type).1 ∧
      c'.shown.map Entry.value =
        (c.shown.map Entry.value).map (·.map (aggregatedIn cudf .average c.type).2) := by
  rw [averageColumn] at run
  split at run
  case h_1 width scale type =>
    split at run
    case isTrue => cases run
    case isFalse =>
      obtain ⟨view, viewed, run⟩ := bind_ok_iff.mp run
      obtain ⟨same, values⟩ := convertToCudfColumn_inv direct viewed
      have stored := setFromCudfColumn_inv run
      have double := GpuExpressions.setFromCudfColumn_type run
      refine ⟨stored.direct, ?_, ?_⟩
      · rw [type]
        exact (Except.ok.inj double).symm
      · rw [stored.shown, values, same, type]
        rfl
  case h_2 other =>
    cases run
    have plain : aggregatedIn cudf .average c.type = (c.type, id) := by
      unfold aggregatedIn
      split
      · exact absurd (by assumption) (other _ _)
      · contradiction
      · rfl
    simp [plain, direct]

/-- What is asked for an argument with data: its values, in the type they are aggregated in. -/
structure Asks (cudf : Cudf) (kind : Kind) (c : Column) (asked : AggregationRequest) : Prop where
  aggregation : asked.aggregation = aggregationOf kind
  type : asked.values.type = (aggregatedIn cudf kind c.type).1
  values : asked.values.values =
    (c.shown.map Entry.value).map (·.map (aggregatedIn cudf kind c.type).2)

theorem asks_of_convert (direct : c'.rowIds = none)
    (type : c'.type = (aggregatedIn cudf kind c.type).1)
    (values : c'.shown.map Entry.value =
      (c.shown.map Entry.value).map (·.map (aggregatedIn cudf kind c.type).2))
    (run : (AggregationRequest.mk (aggregationOf kind) <$> convertToCudfColumn c') = .ok asked) :
    Asks cudf kind c asked := by
  cases made : convertToCudfColumn c' with
  | error e =>
      rw [made] at run
      cases run
  | ok column =>
      rw [made] at run
      cases run
      obtain ⟨type', values'⟩ := convertToCudfColumn_inv direct made
      exact ⟨rfl, type'.trans type, values'.trans values⟩

/-- The request of an argument with data. -/
theorem request_data {size : Nat} (star : kind ≠ .countStar) (direct : c.rowIds = none)
    (data : c.entries ≠ none)
    (run : request cudf size kind.type (prepareSum (kind.bound child) c) = .ok asked) :
    Asks cudf kind c asked := by
  have itself (plain : aggregatedIn cudf kind c.type = (c.type, id)) :
      c.type = (aggregatedIn cudf kind c.type).1 ∧ c.shown.map Entry.value =
        (c.shown.map Entry.value).map (·.map (aggregatedIn cudf kind c.type).2) := by
    simp [plain]
  cases kind with
  | countStar => exact absurd rfl star
  | sum =>
      obtain ⟨data', direct', type, values⟩ :=
        @prepareSum_inv cudf .sum child c rfl direct data
      exact asks_of_convert direct' type values
        (by simpa [request, data', Kind.type, aggregationOf] using run)
  | sumNoOverflow =>
      obtain ⟨data', direct', type, values⟩ :=
        @prepareSum_inv cudf .sumNoOverflow child c rfl direct data
      exact asks_of_convert direct' type values
        (by simpa [request, data', Kind.type, aggregationOf] using run)
  | average =>
      rw [prepareSum_other (by decide)] at run
      have both : (averageColumn cudf c >>= fun c => .mk .mean <$> convertToCudfColumn c) =
          .ok asked := by
        simpa [request, data, Kind.type] using run
      obtain ⟨p, cast, converted⟩ := bind_ok_iff.mp both
      obtain ⟨direct', type, values⟩ := averageColumn_inv direct cast
      exact asks_of_convert direct' type values converted
  | _ =>
      rw [prepareSum_other (by decide)] at run
      obtain ⟨type, values⟩ := itself rfl
      exact asks_of_convert direct type values
        (by simpa [request, data, Kind.type, aggregationOf] using run)

/-- The request of an argument without data. -/
theorem request_absent {size : Nat} (data : c.entries = none) (empty : c.columnLength = 0)
    (supported : kind = .count ∨ kind.isSum = true) :
    request cudf size kind.type (prepareSum (kind.bound child) c) =
      .ok ⟨.sum, zeroColumn size⟩ := by
  have same : prepareSum (kind.bound child) c = c := by
    rw [prepareSum, if_neg fun both => both.2.2.1 data]
  rw [same]
  cases kind <;> simp_all [request, Kind.type, Kind.isSum]

end Requests

section Answers

variable (cudf : Cudf)

def isCount (type : AggregationType) : Bool :=
  type = .count ∨ type = .countStar ∨ type = .countDistinct

/-- A value of cudf in the result. -/
def finish (type : AggregationType) (value : Option Bytes) : Option Bytes :=
  if isCount type then value.map convertInt32ToUInt64 else value

/-- The value of a sink: that of SQL, but zero for the sum of a column without data. -/
def sunkValue (kind : Kind) (type : GPUColumnType) (absent : Bool) (values : List (Option Bytes)) :
    Option Bytes :=
  if kind.isSum ∧ absent then some (countBytes 0) else sqlValue cudf kind type values

def rowOf (r : Relation) (i : Nat) : Row := r.columns.map (·.cell i)

/-- A request whose results are the values of a sink. -/
structure Answered (r : Relation) (kind : Kind) (child : Nat) (asked : AggregationRequest) :
    Prop where
  long : asked.values.values.length = r.rowCount
  answer : ∀ rows : List Nat, rows ≠ [] → (∀ i ∈ rows, i < r.rowCount) → rows.length ≤ int32Max →
    finish kind.type (requested cudf asked rows) =
      sunkValue cudf kind (typeAt (r.columns.map (·.type)) child) (absent r child)
        (rows.map fun i => cellOf (rowOf r i) child)
  counting : isCount kind.type = true →
    (∀ rows, ∃ bits, requested cudf asked rows = some bits ∧ bits.length = 4) ∨
      ∀ rows, rows ≠ [] → (∀ i ∈ rows, i < r.rowCount) →
        requested cudf asked rows = some (countBytes 0)

variable {cudf} {r : Relation} {kind : Kind} {child : Nat} {c c' : Column}
  {asked : AggregationRequest}

theorem resultColumn_kept {type : AggregationType} {column : CudfColumn}
    (run : resultColumn type column = .ok c) (counting : isCount type = true → Counting column) :
    (column.values ≠ [] → Kept c (column.values.map (finish type))) := by
  intro some
  by_cases count : isCount type = true
  · have finished : column.values.map (finish type) =
        column.values.map (Option.map convertInt32ToUInt64) :=
      List.map_congr_left fun value _ => by rw [finish, if_pos count]
    rw [resultColumn, if_pos (by simpa [isCount] using count)] at run
    cases run
    rw [finished, ← convert_dataInt32 (counting count)]
    have length : (dataInt32 column).length = column.values.length := by simp [dataInt32]
    have some' : dataInt32 column ≠ [] := by
      intro none
      rw [none] at length
      exact some (List.length_eq_zero_iff.mp length.symm)
    constructor
    · rfl
    · simp [plainColumn]
    · rw [if_neg (by simpa using some')]
      simp [plainColumn, entryOf, Function.comp_def]
  · have finished : column.values.map (finish type) = column.values := by
      refine (List.map_congr_left fun value _ => ?_).trans (List.map_id _)
      rw [finish, if_neg count]
      rfl
    rw [resultColumn, if_neg (by simpa [isCount] using count)] at run
    rw [finished]
    exact setFromCudfColumn_kept run

theorem argumentColumn_inv (run : argumentColumn r.columns (kind.bound child) = .ok c') :
    (kind = .countStar ∧ c' = starColumn r.columns) ∨
      (kind ≠ .countStar ∧ ∃ c, r.columns[child]? = some c ∧ Materialized c c') := by
  by_cases star : kind = .countStar
  · subst star
    cases run
    exact .inl ⟨rfl, rfl⟩
  · have read : readColumn r.columns child = .ok c' := by
      simpa [argumentColumn, Kind.bound, star] using run
    exact .inr ⟨star, AggregateInputs.readColumn_inv read⟩

theorem cellOf_rowOf (here : r.columns[child]? = some c) (i : Nat) :
    cellOf (rowOf r i) child = ((c.shown.map Entry.value)[i]?).join := by
  rw [cellOf, rowOf, List.getElem?_map, here, List.getElem?_map, Option.map_some,
    Option.join_some, Column.cell]
  cases c.shown[i]? <;> rfl

theorem typeAt_columns (here : r.columns[child]? = some c) :
    typeAt (r.columns.map (·.type)) child = c.type := by
  rw [typeAt, List.getD_eq_getElem?_getD, List.getElem?_map, here]
  rfl

theorem zeros_at {size : Nat} {rows : List Nat} (inside : ∀ i ∈ rows, i < size) :
    present (rows.map fun row => ((zeroColumn size).values[row]?).join) =
      List.replicate rows.length (countBytes 0) := by
  have zero (i : Nat) (member : i ∈ rows) :
      ((zeroColumn size).values[i]?).join = some (countBytes 0) := by
    rw [zeroColumn, List.getElem?_replicate_of_lt (inside i member)]
    rfl
  rw [List.map_congr_left zero, List.map_const']
  induction rows with
  | nil => rfl
  | cons i rest ih =>
      rw [List.length_cons, List.replicate_succ, List.replicate_succ]
      refine congrArg (countBytes 0 :: ·) (ih ?_ ?_)
      · exact fun j member => inside j (List.mem_cons_of_mem _ member)
      · exact fun j member => zero j (List.mem_cons_of_mem _ member)

/-- COUNT(*) counts zeros. -/
theorem answered_star : Answered cudf r .countStar child ⟨.count, zeroColumn r.rowCount⟩ where
  long := List.length_replicate
  answer rows _ inside small := by
    rw [requested, zeros_at inside, List.length_replicate]
    change (some (encode 4 rows.length)).map convertInt32ToUInt64 = _
    rw [Option.map_some, convert_encode small]
    simp [sunkValue, Kind.isSum, sqlValue]
  counting _ := .inl fun rows => ⟨_, rfl, by simp [encode, ResultCollector.bytesOf_length]⟩

/-- Without data zeros are summed up, also for COUNT. -/
theorem answered_absent (documented : Documented cudf) (here : r.columns[child]? = some c)
    (data : c.entries = none) (supported : kind = .count ∨ kind.isSum = true) :
    Answered cudf r kind child ⟨.sum, zeroColumn r.rowCount⟩ := by
  have zero (rows : List Nat) (some : rows ≠ []) (inside : ∀ i ∈ rows, i < r.rowCount) :
      requested cudf ⟨.sum, zeroColumn r.rowCount⟩ rows = Option.some (countBytes 0) := by
    obtain ⟨n, length⟩ := Nat.exists_eq_succ_of_ne_zero (mt List.length_eq_zero_iff.mp some)
    rw [requested, zeros_at inside, length]
    change (if _ then _ else _) = _
    rw [if_neg (by simp [List.replicate_succ])]
    exact congrArg Option.some (documented.zeros n)
  have nothing (rows : List Nat) : present (rows.map fun i => cellOf (rowOf r i) child) = [] := by
    have empty (i : Nat) : cellOf (rowOf r i) child = none := by
      rw [cellOf_rowOf here, Column.shown, data]
      rfl
    simp only [empty, List.map_const']
    exact UngroupedAggregate.present_replicate _
  have missing : absent r child = true := by rw [absent, here, Option.any_some, data]; rfl
  refine ⟨List.length_replicate, fun rows some inside _ => ?_, fun _ => .inr zero⟩
  rw [zero rows some inside]
  rcases supported with rfl | sum
  · have counts : isCount Kind.count.type = true := by decide
    rw [finish, if_pos counts, Option.map_some, convert_zero, sunkValue,
      if_neg (by simp [Kind.isSum]), sqlValue, nothing]
    rfl
  · have plain : isCount kind.type = false := by
      cases kind <;> first | rfl | cases sum
    rw [finish, if_neg (by simp [plain]), sunkValue, if_pos ⟨sum, missing⟩]

/-- With data the values are aggregated. -/
theorem answered_data (star : kind ≠ .countStar) (here : r.columns[child]? = some c)
    (data : c.entries ≠ none) (same : Materialized c c') (asks : Asks cudf kind c' asked) :
    Answered cudf r kind child asked := by
  have values : asked.values.values =
      (c.shown.map Entry.value).map (·.map (aggregatedIn cudf kind c.type).2) := by
    rw [asks.values, same.shown, same.type]
  have type : asked.values.type = (aggregatedIn cudf kind c.type).1 := by
    rw [asks.type, same.type]
  have shown (rows : List Nat) :
      present (rows.map fun row => (asked.values.values[row]?).join) =
        (present (rows.map fun i => cellOf (rowOf r i) child)).map
          (aggregatedIn cudf kind c.type).2 := by
    rw [← UngroupedAggregate.present_map, List.map_map]
    congr 1
    refine List.map_congr_left fun i _ => ?_
    rw [Function.comp_apply, cellOf_rowOf here, values, List.getElem?_map]
    cases (c.shown.map Entry.value)[i]? <;> rfl
  have stays : absent r child = false := by
    rw [absent, here, Option.any_some]
    simpa using Option.isSome_iff_ne_none.mpr data
  have most (rows : List Nat) : (present (rows.map fun i => cellOf (rowOf r i) child)).length ≤
      rows.length := by
    have reduced := List.reduceOption_length_le (rows.map fun i => cellOf (rowOf r i) child)
    rwa [List.length_map] at reduced
  refine ⟨?_, fun rows _ _ small => ?_, fun count => .inl fun rows => ?_⟩
  · rw [values, List.length_map, List.length_map, shown_count (List.mem_of_getElem? here) data]
  · have enough := most rows
    rw [sunkValue, if_neg (by simp [stays]), typeAt_columns here]
    cases kind with
    | countStar => exact absurd rfl star
    | count =>
        rw [requested, asks.aggregation, aggregationOf, shown]
        change (some (encode 4 _)).map convertInt32ToUInt64 = _
        rw [Option.map_some, convert_encode (by rw [List.length_map]; omega), List.length_map]
        rfl
    | countDistinct =>
        rw [requested, asks.aggregation, aggregationOf, shown, type]
        change (some (encode 4 _)).map convertInt32ToUInt64 = _
        have fewer := (List.dedup_sublist ((present (rows.map fun i =>
          cellOf (rowOf r i) child)).map (cudf.canonical c.type))).length_le
        rw [List.length_map] at fewer
        have itself : aggregatedIn cudf .countDistinct c.type = (c.type, id) := rfl
        rw [itself, List.map_id, Option.map_some, convert_encode (fewer.trans (by omega))]
        rfl
    | _ =>
        rw [requested, asks.aggregation, aggregationOf, shown, type]
        change (if _ then _ else _) = (if _ then _ else _)
        simp only [List.map_eq_nil_iff]
        rfl
  · have op := asks.aggregation
    cases kind <;> first
      | exact absurd count (by decide)
      | (rw [requested, op]; exact ⟨_, rfl, by simp [encode, ResultCollector.bytesOf_length]⟩)

end Answers

section Groupby

variable {cudf : Cudf} {r : Relation} {groups : List Nat} {plan : List (Kind × Nat)}
  {keys arguments : List Column} {keysCudf : List CudfColumn}
  {requests : List AggregationRequest} {c : Column}

/-- The keys that a sink reads. -/
def KeysRead (r : Relation) (groups : List Nat) (keys : List Column) : Prop :=
  keys.length = groups.length ∧ ∀ (i : Nat) group, groups[i]? = some group →
    ∃ c c', r.columns[group]? = some c ∧ keys[i]? = some c' ∧ Materialized c c'

theorem keysRead_of_run (run : groups.mapM (readColumn r.columns) = .ok keys) :
    KeysRead r groups keys := by
  refine ⟨(mapM_ok_iff.mp run).length_eq.symm, fun i group here => ?_⟩
  obtain ⟨c', there, read⟩ := mapM_at run here
  obtain ⟨c, known, materialized⟩ := AggregateInputs.readColumn_inv read
  exact ⟨c, c', known, there, materialized⟩

/-- The keys as cudf gets them. -/
structure KeysGiven (r : Relation) (groups : List Nat) (keysCudf : List CudfColumn) : Prop where
  length : keysCudf.length = groups.length
  given : ∀ (i : Nat) group, groups[i]? = some group → ∃ c column, r.columns[group]? = some c ∧
    c.entries ≠ none ∧ keysCudf[i]? = some column ∧ column.type = c.type ∧
      column.values = c.shown.map Entry.value

theorem keysGiven_of_run (read : KeysRead r groups keys)
    (keyed : ∀ group ∈ groups, ∀ c, r.columns[group]? = some c → c.entries ≠ none)
    (run : keys.mapM keyToCudf = .ok keysCudf) : KeysGiven r groups keysCudf := by
  refine ⟨(mapM_ok_iff.mp run).length_eq.symm.trans read.1, fun i group here => ?_⟩
  obtain ⟨c, c', known, there, materialized⟩ := read.2 i group here
  obtain ⟨column, at', converted⟩ := mapM_at run there
  rw [keyToCudf] at converted
  split at converted
  · cases converted
  · obtain ⟨type, values⟩ := convertToCudfColumn_inv materialized.direct converted
    refine ⟨c, column, known, keyed group (List.mem_of_getElem? here) c known, at', ?_, ?_⟩
    · rw [type, materialized.type]
    · rw [values, materialized.shown]

theorem KeysGiven.types (given : KeysGiven r groups keysCudf) :
    keysCudf.map (·.type) = groups.map (typeAt (r.columns.map (·.type))) := by
  refine List.ext_getElem (by simp [given.length]) fun i inside inside' => ?_
  have here : i < groups.length := by simpa using inside'
  obtain ⟨c, column, known, -, at', type, -⟩ :=
    given.given i groups[i] (List.getElem?_eq_getElem here)
  obtain ⟨at'', same⟩ := List.getElem?_eq_some_iff.mp at'
  rw [List.getElem_map, List.getElem_map, same, type, typeAt_columns known]

theorem KeysGiven.row (given : KeysGiven r groups keysCudf) (j : Nat) :
    rowAt keysCudf j = groups.map (cellOf (rowOf r j)) := by
  refine List.ext_getElem (by simp [rowAt, given.length]) fun i inside inside' => ?_
  have here : i < groups.length := by simpa using inside'
  obtain ⟨c, column, known, -, at', -, values⟩ :=
    given.given i groups[i] (List.getElem?_eq_getElem here)
  obtain ⟨at'', same⟩ := List.getElem?_eq_some_iff.mp at'
  simp only [rowAt, List.getElem_map]
  rw [same, values, cellOf_rowOf known]

theorem KeysGiven.long (given : KeysGiven r groups keysCudf) {column : CudfColumn}
    (member : column ∈ keysCudf) : column.values.length = r.rowCount := by
  obtain ⟨i, inside, rfl⟩ := List.getElem_of_mem member
  have here : i < groups.length := by rwa [given.length] at inside
  obtain ⟨c, column, known, data, at', -, values⟩ :=
    given.given i groups[i] (List.getElem?_eq_getElem here)
  obtain ⟨_, rfl⟩ := List.getElem?_eq_some_iff.mp at'
  rw [values, List.length_map, shown_count (List.mem_of_getElem? known) data]

/-- Keys without a mask have no NULL. -/
theorem no_nulls (run : keys.mapM keyToCudf = .ok keysCudf) (direct : ∀ c ∈ keys, c.rowIds = none)
    (masks : hasNullableKey keys = false) : ∀ column ∈ keysCudf, none ∉ column.values := by
  intro column member
  obtain ⟨i, inside, rfl⟩ := List.getElem_of_mem member
  obtain ⟨c, here, converted⟩ := mapM_getElem? run (List.getElem?_eq_getElem inside)
  have member' := List.mem_of_getElem? here
  rw [keyToCudf] at converted
  split at converted
  · cases converted
  · obtain ⟨-, values⟩ := convertToCudfColumn_inv (direct c member') converted
    rw [values]
    intro null
    obtain ⟨e, shown, missing⟩ := List.mem_map.mp null
    have valid : e.valid = true := by
      have all := List.any_eq_false.mp masks c member'
      rw [Bool.not_eq_true, List.any_eq_false] at all
      simpa using all e shown
    rw [Entry.value, if_pos valid] at missing
    cases missing

/-- The requests for the aggregates of a plan. -/
structure RequestsAnswered (cudf : Cudf) (r : Relation) (plan : List (Kind × Nat))
    (requests : List AggregationRequest) : Prop where
  length : requests.length = plan.length
  answered : ∀ (i : Nat) x, plan[i]? = some x → ∃ asked, requests[i]? = some asked ∧
    Answered cudf r x.1 x.2 asked

theorem answered_of_run (documented : Documented cudf) (some : r.rowCount ≠ 0)
    (sized : columnSize r.columns = r.rowCount) {kind : Kind} {child : Nat} {argument : Column}
    {type : AggregationType} {asked : AggregationRequest}
    (read : argumentColumn r.columns (kind.bound child) = .ok argument)
    (typed : aggregationType (kind.bound child) argument = .ok type)
    (made : request cudf r.rowCount type (prepareSum (kind.bound child) argument) = .ok asked) :
    type = kind.type ∧ Answered cudf r kind child asked := by
  obtain ⟨rfl, supported⟩ := aggregationType_kind typed
  refine ⟨rfl, ?_⟩
  rcases argumentColumn_inv read with ⟨rfl, rfl⟩ | ⟨star, c, here, materialized⟩
  · have counted : request cudf r.rowCount .countStar (starColumn r.columns) =
        .ok ⟨.count, zeroColumn r.rowCount⟩ := by
      have size : (starColumn r.columns).columnLength ≠ 0 := by
        change columnSize r.columns ≠ 0
        rwa [sized]
      simp [request, starColumn, emptyColumn] at size ⊢
      exact size
    rw [prepareSum_other (by decide)] at made
    cases counted.symm.trans made
    exact answered_star
  · by_cases data : c.entries = none
    · have shown : c.shown = [] := by rw [Column.shown, data]
      have kept := kept_empty materialized shown
      have supported := (supported kept.entries).resolve_left star
      have empty : argument.columnLength = 0 := kept.columnLength
      rw [request_absent kept.entries empty supported] at made
      cases made
      exact answered_absent documented here data supported
    · have data' : argument.entries ≠ none := by
        intro null
        have shown := materialized.null.mp null
        have count := shown_count (List.mem_of_getElem? here) data
        rw [shown] at count
        exact some count.symm
      exact answered_data star here data materialized
        (request_data star materialized.direct data' made)

theorem requestsAnswered_of_run (documented : Documented cudf) (some : r.rowCount ≠ 0)
    (sized : columnSize r.columns = r.rowCount) {types : List AggregationType}
    (read : (planned plan).mapM (argumentColumn r.columns) = .ok arguments)
    (typed : ((planned plan).zip arguments).mapM (fun x => aggregationType x.1 x.2) = .ok types)
    (made : (types.zip (List.zipWith prepareSum (planned plan) arguments)).mapM
      (fun x => request cudf r.rowCount x.1 x.2) = .ok requests) :
    types = plan.map (·.1.type) ∧ RequestsAnswered cudf r plan requests := by
  have readLength := (mapM_ok_iff.mp read).length_eq
  have typedLength := (mapM_ok_iff.mp typed).length_eq
  have madeLength := (mapM_ok_iff.mp made).length_eq
  have planLength : (planned plan).length = plan.length := List.length_map _
  simp only [List.length_zip, List.length_zipWith] at typedLength madeLength
  -- all that is made for the aggregate at a place
  have at' (i : Nat) (x : Kind × Nat) (here : plan[i]? = Option.some x) :
      types[i]? = Option.some x.1.type ∧ ∃ asked, requests[i]? = Option.some asked ∧
        Answered cudf r x.1 x.2 asked := by
    have bound : (planned plan)[i]? = Option.some (x.1.bound x.2) := by
      rw [planned, List.getElem?_map, here]
      rfl
    obtain ⟨argument, held, got⟩ := mapM_at read bound
    obtain ⟨type, typeAt, known⟩ := mapM_at typed
      (a := (x.1.bound x.2, argument)) (List.getElem?_zip_eq_some.mpr ⟨bound, held⟩)
    have prepared : (List.zipWith prepareSum (planned plan) arguments)[i]? =
        Option.some (prepareSum (x.1.bound x.2) argument) := by
      rw [List.getElem?_zipWith, bound, held]
    obtain ⟨asked, askedAt, wanted⟩ := mapM_at made
      (a := (type, prepareSum (x.1.bound x.2) argument))
      (List.getElem?_zip_eq_some.mpr ⟨typeAt, prepared⟩)
    obtain ⟨rfl, answered⟩ := answered_of_run documented some sized got known wanted
    exact ⟨typeAt, asked, askedAt, answered⟩
  refine ⟨?_, by omega, fun i x here => (at' i x here).2⟩
  refine List.ext_getElem (by rw [List.length_map]; omega) fun i inside inside' => ?_
  have here : i < plan.length := by simpa using inside'
  have type := (at' i plan[i] (List.getElem?_eq_getElem here)).1
  rw [List.getElem?_eq_getElem inside] at type
  rw [List.getElem_map]
  exact Option.some.inj type

end Groupby

section Rows

variable (cudf : Cudf) (types : List GPUColumnType) (groups : List Nat) (plan : List (Kind × Nat))

/-- The values that a sink of a relation gives the aggregates. -/
def sunkAnswers (r : Relation) (rows : List Row) : Row :=
  plan.map fun x => sunkValue cudf x.1 (typeAt types x.2) (absent r x.2)
    (rows.map fun row => cellOf row x.2)

/-- The groups of a relation, as a sink makes them. -/
structure SunkRows (r : Relation) (sunk : List Column) (rows : List Row) : Prop where
  length : sunk.length = groups.length + plan.length
  holds : Holds sunk rows
  grouped : GroupedRows.Groups (keyOf cudf types groups) (sunkAnswers cudf types plan r) r.rows
    (rows.map (split cudf types groups))

variable {cudf types groups plan} {r : Relation} {keysCudf : List CudfColumn}
  {requests : List AggregationRequest} {out : List CudfColumn × List CudfColumn} {count : Nat}

theorem rows_eq (r : Relation) : r.rows = (List.range r.rowCount).map (rowOf r) := rfl

/-- The rows of cudf's groups. -/
def groupRows (plan : List (Kind × Nat)) (out : List CudfColumn × List CudfColumn)
    (j : Nat) : Row :=
  rowAt out.1 j ++ List.zipWith (fun x value => finish x.1.type value) plan (rowAt out.2 j)

theorem Grouped.keyLength (grouped : Grouped cudf keysCudf requests r.rowCount out count) :
    out.1.length = keysCudf.length := by
  have lengths := congrArg List.length grouped.keyTypes
  rwa [List.length_map, List.length_map] at lengths

/-- The rows of a group are some of the relation. -/
theorem Grouped.members (grouped : Grouped cudf keysCudf requests r.rowCount out count) {j : Nat}
    (inside : j < count) : ∃ rows : List Nat, rows ≠ [] ∧ (∀ i ∈ rows, i < r.rowCount) ∧
      rows.length ≤ r.rowCount ∧
        rowAt out.2 j = requests.map fun asked => requested cudf asked rows := by
  let key := canonicalKey cudf (keysCudf.map (·.type)) (rowAt out.1 j)
  have member : (key, rowAt out.2 j) ∈ (List.range count).map fun group =>
      (canonicalKey cudf (keysCudf.map (·.type)) (rowAt out.1 group), rowAt out.2 group) :=
    List.mem_map.mpr ⟨j, List.mem_range.mpr inside, rfl⟩
  have known := (grouped.grouped.keys key).mp (List.mem_map_of_mem member)
  obtain ⟨i, here, same⟩ := List.mem_map.mp known
  refine ⟨_, ?_, ?_, ?_, grouped.grouped.values _ member⟩
  · exact List.ne_nil_of_mem (List.mem_filter.mpr ⟨here, decide_eq_true same⟩)
  · exact fun i member => List.mem_range.mp (List.mem_of_mem_filter member)
  · exact (List.length_filter_le _ _).trans (Nat.le_of_eq List.length_range)

/-- The groups of cudf are those of the relation. -/
theorem groups_of_grouped (grouped : Grouped cudf keysCudf requests r.rowCount out count)
    (given : KeysGiven r groups keysCudf) (answered : RequestsAnswered cudf r plan requests)
    (small : r.rowCount ≤ int32Max) :
    GroupedRows.Groups (keyOf cudf (r.columns.map (·.type)) groups)
      (sunkAnswers cudf (r.columns.map (·.type)) plan r) r.rows
      (((List.range count).map (groupRows plan out)).map
        (split cudf (r.columns.map (·.type)) groups)) := by
  have keys : (fun row => canonicalKey cudf (keysCudf.map (·.type)) (rowAt keysCudf row)) =
      keyOf cudf (r.columns.map (·.type)) groups ∘ rowOf r := by
    funext j
    rw [Function.comp_apply, keyOf, given.types, given.row]
  have made := grouped.grouped
  rw [keys, given.types] at made
  have values : ∀ k ∈ (List.range r.rowCount).map
      (keyOf cudf (r.columns.map (·.type)) groups ∘ rowOf r),
      List.zipWith (fun x value => finish x.1.type value) plan (requests.map fun asked =>
        requested cudf asked (GroupedRows.members
          (keyOf cudf (r.columns.map (·.type)) groups ∘ rowOf r) (List.range r.rowCount) k)) =
      sunkAnswers cudf (r.columns.map (·.type)) plan r ((GroupedRows.members
        (keyOf cudf (r.columns.map (·.type)) groups ∘ rowOf r) (List.range r.rowCount) k).map
          (rowOf r)) := by
    intro k known
    obtain ⟨i, here, same⟩ := List.mem_map.mp known
    have some : i ∈ GroupedRows.members (keyOf cudf (r.columns.map (·.type)) groups ∘ rowOf r)
        (List.range r.rowCount) k :=
      List.mem_filter.mpr ⟨here, decide_eq_true same⟩
    have inside : ∀ i ∈ GroupedRows.members (keyOf cudf (r.columns.map (·.type)) groups ∘ rowOf r)
        (List.range r.rowCount) k, i < r.rowCount :=
      fun i member => List.mem_range.mp (List.mem_of_mem_filter member)
    have most : (GroupedRows.members (keyOf cudf (r.columns.map (·.type)) groups ∘ rowOf r)
        (List.range r.rowCount) k).length ≤ r.rowCount :=
      (List.length_filter_le _ _).trans (Nat.le_of_eq List.length_range)
    refine List.ext_getElem (by simp [sunkAnswers, answered.length]) fun n before before' => ?_
    have at' : n < plan.length := by simpa [sunkAnswers] using before'
    obtain ⟨asked, askedAt, answers⟩ := answered.answered n plan[n] (List.getElem?_eq_getElem at')
    obtain ⟨inside', rfl⟩ := List.getElem?_eq_some_iff.mp askedAt
    have answer := answers.answer _ (List.ne_nil_of_mem some) inside (most.trans small)
    simp only [List.getElem_zipWith, List.getElem_map, sunkAnswers, List.map_map]
    exact answer
  have finished : GroupedRows.Groups (keyOf cudf (r.columns.map (·.type)) groups ∘ rowOf r)
      (fun rows => sunkAnswers cudf (r.columns.map (·.type)) plan r (rows.map (rowOf r)))
      (List.range r.rowCount) _ := made.revalue _ values
  have moved := GroupedRows.Groups.map finished
  rw [← rows_eq, List.map_map] at moved
  rw [List.map_map]
  refine Eq.mp (congrArg _ (List.map_congr_left fun j _ => ?_)) moved
  have width : (rowAt out.1 j).length = groups.length := by
    rw [rowAt, List.length_map, grouped.keyLength, given.length]
  simp [split, groupRows, ← width]

/-- A value of a result column is that of its request over a group. -/
theorem Grouped.value (grouped : Grouped cudf keysCudf requests r.rowCount out count) {n : Nat}
    {column : CudfColumn} {asked : AggregationRequest} (columnAt : out.2[n]? = some column)
    (askedAt : requests[n]? = some asked) {value : Option Bytes} (member : value ∈ column.values) :
    ∃ rows : List Nat, rows ≠ [] ∧ (∀ i ∈ rows, i < r.rowCount) ∧
      value = requested cudf asked rows := by
  have long := grouped.even column (List.mem_append_right _ (List.mem_of_getElem? columnAt))
  obtain ⟨j, inside, rfl⟩ := List.getElem_of_mem member
  obtain ⟨rows, some, within, -, row⟩ := grouped.members (long ▸ inside)
  refine ⟨rows, some, within, ?_⟩
  have cells := congrArg (·[n]?) row
  simp only [rowAt, List.getElem?_map, columnAt, askedAt, Option.map_some,
    List.getElem?_eq_getElem inside] at cells
  exact Option.some.inj cells

theorem Grouped.counting (grouped : Grouped cudf keysCudf requests r.rowCount out count) {n : Nat}
    {x : Kind × Nat} {column : CudfColumn} {asked : AggregationRequest}
    (answers : Answered cudf r x.1 x.2 asked) (columnAt : out.2[n]? = some column)
    (askedAt : requests[n]? = some asked) (counts : isCount x.1.type = true) :
    Counting column := by
  rcases answers.counting counts with words | zeros
  · refine .inl fun value member => ?_
    obtain ⟨rows, -, -, rfl⟩ := grouped.value columnAt askedAt member
    exact words rows
  · refine .inr fun value member => ?_
    obtain ⟨rows, some, within, rfl⟩ := grouped.value columnAt askedAt member
    exact zeros rows some within

/-- The columns of a result, set from those of cudf. -/
theorem holds_of_grouped {keys keys' values' : List Column} {types : List AggregationType}
    (grouped : Grouped cudf keysCudf requests r.rowCount out count) (some : r.rowCount ≠ 0)
    (answered : RequestsAnswered cudf r plan requests)
    (keyLength : keys.length = keysCudf.length) (planTypes : types = plan.map (·.1.type))
    (setKeys : (keys.zip out.1).mapM (fun x => setFromCudfColumn x.2 x.1.isUnique) = .ok keys')
    (setValues : (types.zip out.2).mapM (fun x => resultColumn x.1 x.2) = .ok values') :
    keys'.length = keysCudf.length ∧ values'.length = plan.length ∧
      Holds (keys' ++ values') ((List.range count).map (groupRows plan out)) := by
  have outKeys := grouped.keyLength
  have outValues := grouped.results.trans answered.length
  have length : keys'.length = keysCudf.length := by
    have zipped := (mapM_ok_iff.mp setKeys).length_eq
    rw [List.length_zip] at zipped
    omega
  have length' : values'.length = plan.length := by
    have zipped := (mapM_ok_iff.mp setValues).length_eq
    rw [List.length_zip, planTypes, List.length_map] at zipped
    omega
  have groups : count ≠ 0 := by
    intro none
    have rows : List.range r.rowCount ≠ [] := by simpa using some
    refine grouped.grouped.ne_nil rows ?_
    rw [none]
    rfl
  have keyRow (j : Nat) : (rowAt out.1 j).length = keys'.length := by
    rw [rowAt, List.length_map]
    omega
  refine ⟨length, length', fun row member => ?_, fun i c here => ?_⟩
  · obtain ⟨j, -, rfl⟩ := List.mem_map.mp member
    simp only [groupRows, rowAt, List.length_append, List.length_zipWith, List.length_map]
    omega
  · rcases Nat.lt_or_ge i keys'.length with key | value
    · rw [List.getElem?_append_left key] at here
      obtain ⟨⟨old, column⟩, at', stored⟩ := mapM_getElem? setKeys here
      obtain ⟨-, columnAt⟩ := List.getElem?_zip_eq_some.mp at'
      have kept := setFromCudfColumn_kept stored
      have long := grouped.even column (List.mem_append_left _ (List.mem_of_getElem? columnAt))
      rw [← values_of_range long] at kept
      rw [List.map_map]
      refine Eq.mp (congrArg _ (List.map_congr_left fun j _ => ?_)) kept
      rw [Function.comp_apply, cellOf, groupRows,
        List.getElem?_append_left (by rw [keyRow]; exact key), rowAt, List.getElem?_map, columnAt]
      rfl
    · rw [List.getElem?_append_right value] at here
      obtain ⟨⟨type, column⟩, at', stored⟩ := mapM_getElem? setValues here
      obtain ⟨typeAt, columnAt⟩ := List.getElem?_zip_eq_some.mp at'
      rw [planTypes, List.getElem?_map] at typeAt
      obtain ⟨x, planAt, rfl⟩ := Option.map_eq_some_iff.mp typeAt
      obtain ⟨asked, askedAt, answers⟩ := answered.answered _ x planAt
      have long := grouped.even column (List.mem_append_right _ (List.mem_of_getElem? columnAt))
      have counting := grouped.counting answers columnAt askedAt
      have nonempty : column.values ≠ [] := by
        intro none
        rw [none] at long
        exact groups long.symm
      have kept := resultColumn_kept stored counting nonempty
      rw [← values_of_range long, List.map_map] at kept
      rw [List.map_map]
      refine Eq.mp (congrArg _ (List.map_congr_left fun j _ => ?_)) kept
      rw [Function.comp_apply, Function.comp_apply, cellOf, groupRows,
        List.getElem?_append_right (by rw [keyRow]; exact value), keyRow, List.getElem?_zipWith,
        planAt, rowAt, List.getElem?_map, columnAt]
      rfl

/-- A relation with rows is grouped for itself. -/
theorem cudfGroupby_rows {keys arguments keys' values' : List Column}
    {aggregationTypes : List AggregationType} (documented : Documented cudf)
    (sinkable : Sinkable (r.columns.map (·.type)) groups r) (some : r.rowCount ≠ 0)
    (small : r.rowCount ≤ int32Max) (keyed : groups ≠ []) (read : KeysRead r groups keys)
    (arguments' : (planned plan).mapM (argumentColumn r.columns) = .ok arguments)
    (typed : ((planned plan).zip arguments).mapM (fun x => aggregationType x.1 x.2) =
      .ok aggregationTypes)
    (run : cudfGroupby cudf keys (List.zipWith prepareSum (planned plan) arguments)
      aggregationTypes = .ok (keys', values')) :
    ∃ rows, SunkRows cudf (r.columns.map (·.type)) groups plan r (keys' ++ values') rows := by
  have lengths (c' : Column) (member : c' ∈ keys) :
      c'.columnLength = r.rowCount ∧ c'.rowIds = none := by
    obtain ⟨i, inside, rfl⟩ := List.getElem_of_mem member
    have here : i < groups.length := by rwa [read.1] at inside
    obtain ⟨c, c', known, at', materialized⟩ :=
      read.2 i groups[i] (List.getElem?_eq_getElem here)
    obtain ⟨_, rfl⟩ := List.getElem?_eq_some_iff.mp at'
    have data := sinkable.keyed some groups[i] (List.getElem_mem here) c known
    rw [materialized.columnLength, shown_count (List.mem_of_getElem? known) data]
    exact ⟨rfl, materialized.direct⟩
  have nonempty : keys ≠ [] := by
    intro none
    rw [none] at read
    exact keyed (List.length_eq_zero_iff.mp read.1.symm)
  obtain ⟨first, rest, rfl⟩ := List.exists_cons_of_ne_nil nonempty
  have size : (((first :: rest).getLast?.map (·.columnLength)).getD 0) = r.rowCount := by
    rw [List.getLast?_eq_some_getLast nonempty, Option.map_some, Option.getD_some]
    exact (lengths _ (List.getLast_mem nonempty)).1
  have launched : first.columnLength ≠ 0 := by
    rw [(lengths first List.mem_cons_self).1]
    exact some
  rw [cudfGroupby, if_neg launched] at run
  simp only [size] at run
  obtain ⟨keysCudf, converted, run⟩ := bind_ok_iff.mp run
  obtain ⟨requests, asked, run⟩ := bind_ok_iff.mp run
  obtain ⟨out, grouped, run⟩ := bind_ok_iff.mp run
  obtain ⟨keys'', setKeys, run⟩ := bind_ok_iff.mp run
  obtain ⟨values'', setValues, run⟩ := bind_ok_iff.mp run
  cases run
  have given := keysGiven_of_run read (sinkable.keyed some) converted
  obtain ⟨planTypes, answered⟩ :=
    requestsAnswered_of_run documented some sinkable.sized arguments' typed asked
  have long (column : CudfColumn) (member : column ∈ keysCudf ++ requests.map (·.values)) :
      column.values.length = r.rowCount := by
    rcases List.mem_append.mp member with key | value
    · exact given.long key
    · obtain ⟨request, wanted, rfl⟩ := List.mem_map.mp value
      obtain ⟨i, inside, rfl⟩ := List.getElem_of_mem wanted
      have here : i < plan.length := by rwa [answered.length] at inside
      obtain ⟨asked, askedAt, answers⟩ :=
        answered.answered i plan[i] (List.getElem?_eq_getElem here)
      obtain ⟨_, rfl⟩ := List.getElem?_eq_some_iff.mp askedAt
      exact answers.long
  have nulls : hasNullableKey (first :: rest) = true ∨
      ∀ column ∈ keysCudf, none ∉ column.values := by
    cases masks : hasNullableKey (first :: rest) with
    | true => exact .inl rfl
    | false => exact .inr (no_nulls converted (fun c member => (lengths c member).2) masks)
  have keysCudf_ne : keysCudf ≠ [] := by
    intro none
    rw [none] at given
    exact keyed (List.length_eq_zero_iff.mp given.length.symm)
  obtain ⟨count, grouped⟩ := documented.grouped _ _ _ r.rowCount _ keysCudf_ne long nulls grouped
  have keyLength : (first :: rest).length = keysCudf.length := read.1.trans given.length.symm
  obtain ⟨length, length', holds⟩ :=
    holds_of_grouped grouped some answered keyLength planTypes setKeys setValues
  refine ⟨_, ?_, holds, groups_of_grouped grouped given answered small⟩
  rw [List.length_append, length, length', given.length]

/-- What a sink adds to the result. -/
theorem sinkColumns_rows {sunk : List Column} (documented : Documented cudf) (keyed : groups ≠ [])
    (aggregated : plan ≠ []) (sinkable : Sinkable (r.columns.map (·.type)) groups r)
    (run : sinkColumns cudf groups (planned plan) r.columns = .ok sunk) :
    ∃ rows, SunkRows cudf (r.columns.map (·.type)) groups plan r sunk rows := by
  obtain ⟨keys, readKeys, run⟩ := bind_ok_iff.mp run
  obtain ⟨arguments, readArguments, run⟩ := bind_ok_iff.mp run
  have read := keysRead_of_run readKeys
  have length : arguments.length = plan.length := by
    rw [← (mapM_ok_iff.mp readArguments).length_eq, planned, List.length_map]
  rw [sinkable.sized] at run
  by_cases none : r.rowCount = 0
  · rw [if_pos none] at run
    cases run
    have empty (c : Column) (member : c ∈ r.columns) : c.shown = [] := by
      by_cases data : c.entries = Option.none
      · rw [Column.shown, data]
      · have count := shown_count member data
        rw [none] at count
        exact List.length_eq_zero_iff.mp count
    refine ⟨[], by rw [List.length_append, read.1, length],
      ⟨fun row inside => absurd inside List.not_mem_nil, fun i c here => ?_⟩, ?_⟩
    · rcases List.mem_append.mp (List.mem_of_getElem? here) with key | argument
      · obtain ⟨i, inside, rfl⟩ := List.getElem_of_mem key
        have inside' : i < groups.length := by rwa [read.1] at inside
        obtain ⟨c, c', known, at', materialized⟩ :=
          read.2 i groups[i] (List.getElem?_eq_getElem inside')
        obtain ⟨_, rfl⟩ := List.getElem?_eq_some_iff.mp at'
        exact kept_empty materialized (empty c (List.mem_of_getElem? known))
      · obtain ⟨i, at'⟩ := List.mem_iff_getElem?.mp argument
        obtain ⟨aggregate, bound, got⟩ := mapM_getElem? readArguments at'
        rw [planned, List.getElem?_map] at bound
        obtain ⟨x, -, rfl⟩ := Option.map_eq_some_iff.mp bound
        rcases argumentColumn_inv got with ⟨-, rfl⟩ | ⟨-, old, known, materialized⟩
        · exact ⟨rfl, by change columnSize r.columns = 0; rw [sinkable.sized, none], rfl⟩
        · exact kept_empty materialized (empty old (List.mem_of_getElem? known))
    · have rows : r.rows = [] := by rw [rows_eq, none]; rfl
      rw [rows]
      exact GroupedRows.groups_nil
  · rw [if_neg none] at run
    cases keys with
    | nil => cases run
    | cons key keys =>
        cases arguments with
        | nil => exact absurd (List.length_eq_zero_iff.mp length.symm) aggregated
        | cons argument arguments =>
            simp only at run
            split at run
            case isTrue => cases run
            case isFalse fits =>
              obtain ⟨result, handled, run⟩ := bind_ok_iff.mp run
              cases run
              obtain ⟨types, typed, grouped⟩ := bind_ok_iff.mp handled
              have small : r.rowCount ≤ int32Max := by
                have some : groups ≠ [] := keyed
                obtain ⟨group, rest, rfl⟩ := List.exists_cons_of_ne_nil some
                obtain ⟨c, c', known, at', materialized⟩ := read.2 0 group rfl
                cases at'
                have data := sinkable.keyed none group List.mem_cons_self c known
                have count := shown_count (List.mem_of_getElem? known) data
                rw [materialized.columnLength, count] at fits
                omega
              exact cudfGroupby_rows documented sinkable none small keyed read readArguments typed
                grouped

end Rows

section Merge

/-- What becomes of a value whose mask is left behind. -/
def unmask (value : Option Bytes) : Option Bytes := some (value.getD [])

def unmaskRow (row : Row) : Row := row.map unmask

/-- The rows of the result and those of a further sink. -/
def mergeRows (rows rows' : List Row) : List Row :=
  if rows = [] then rows'
  else if rows' = [] then rows
  else (rows ++ rows').map unmaskRow

def merged (parts : List (List Row)) : List Row := parts.foldl mergeRows []

/-- At most one of the parts has rows. -/
def Single (parts : List (List Row)) : Prop := (parts.filter (!·.isEmpty)).length ≤ 1

theorem unmaskRow_idem (row : Row) : unmaskRow (unmaskRow row) = unmaskRow row := by
  rw [unmaskRow, unmaskRow, List.map_map]
  exact List.map_congr_left fun value _ => rfl

theorem mergeRows_nil (rows : List Row) : mergeRows rows [] = rows := by
  rw [mergeRows]
  split
  · rename_i none
    exact none.symm
  · rw [if_pos rfl]

theorem merged_eq (parts : List (List Row)) : Single parts ∧ merged parts = parts.flatten ∨
    ¬ Single parts ∧ merged parts = parts.flatten.map unmaskRow := by
  induction parts using List.reverseRecOn with
  | nil => exact .inl ⟨by simp [Single], rfl⟩
  | append_singleton parts rows ih =>
      have step : merged (parts ++ [rows]) = mergeRows (merged parts) rows := by
        rw [merged, List.foldl_append]
        rfl
      have flat : (parts ++ [rows]).flatten = parts.flatten ++ rows := by simp
      have whole : merged parts = [] ↔ parts.flatten = [] := by
        rcases ih with ⟨-, same⟩ | ⟨-, same⟩ <;> simp [same]
      rw [step, flat]
      by_cases none : rows = []
      · have count : Single (parts ++ [rows]) ↔ Single parts := by simp [Single, none]
        rw [none, mergeRows_nil, List.append_nil, ← none, count]
        exact ih
      · have count : Single (parts ++ [rows]) ↔ parts.flatten = [] := by
          have last : [rows].filter (!·.isEmpty) = [rows] := by simpa using none
          rw [Single, List.filter_append, last, List.length_append, List.length_singleton]
          simp
        by_cases first : parts.flatten = []
        · refine .inl ⟨count.mpr first, ?_⟩
          rw [mergeRows, if_pos (whole.mpr first), first, List.nil_append]
        · refine .inr ⟨mt count.mp first, ?_⟩
          rw [mergeRows, if_neg (mt whole.mp first), if_neg none]
          rcases ih with ⟨-, same⟩ | ⟨-, same⟩
          · rw [same]
          · rw [same, List.map_append, List.map_append, List.map_map]
            refine congrArg (· ++ _) (List.map_congr_left fun row _ => unmaskRow_idem row)

variable {columns sunk : List Column} {rows rows' : List Row}

theorem cellOf_unmaskRow {row : Row} {i : Nat} (inside : i < row.length) :
    cellOf (unmaskRow row) i = unmask (cellOf row i) := by
  rw [cellOf, cellOf, unmaskRow, List.getElem?_map, List.getElem?_eq_getElem inside]
  rfl

theorem combineColumns_kept {a b c : Column} {values values' : List (Option Bytes)}
    (kept : Kept a values) (kept' : Kept b values') (some : values ≠ []) (some' : values' ≠ [])
    (run : combineColumns a b = .ok c) : Kept c ((values ++ values').map unmask) := by
  have made : ∃ type numBytes isUnique, c = plainColumn type
      ((a.entries.getD [] ++ b.entries.getD []).map fun e => ⟨e.bits, true⟩) numBytes
        isUnique := by
    rw [combineColumns] at run
    split at run
    all_goals
      first
      | cases run
      | (split_ifs at run; cases run; exact ⟨_, _, _, rfl⟩)
  obtain ⟨type, numBytes, isUnique, rfl⟩ := made
  have entries : ((a.entries.getD [] ++ b.entries.getD []).map fun e => (⟨e.bits, true⟩ : Entry)) =
      ((values ++ values').map unmask).map entryOf := by
    rw [kept.entries, kept'.entries, if_neg some, if_neg some', Option.getD_some,
      Option.getD_some, ← List.map_append, List.map_map, List.map_map]
    refine List.map_congr_left fun value _ => ?_
    cases value <;> rfl
  rw [entries]
  refine ⟨rfl, List.length_map _, ?_⟩
  rw [if_neg (by simp [some])]
  rfl

theorem sinkColumn_kept {old c : Column} {slot : Option Column}
    {values values' : List (Option Bytes)} (kept : Kept old values) (kept' : Kept c values')
    (run : sinkColumn (some old) c = .ok slot) : ∃ new, slot = some new ∧
      Kept new (if values = [] then values' else if values' = [] then values
        else (values ++ values').map unmask) := by
  rw [sinkColumn] at run
  simp only [ne_eq, kept.null_iff, kept'.null_iff] at run
  by_cases none : values = [] <;> by_cases none' : values' = []
  · simp only [none, none', not_true, false_and, if_false] at run
    cases run
    exact ⟨old, rfl, by simpa [none, none'] using none ▸ kept⟩
  · simp only [none, none', not_true, not_false_iff, and_false, if_false, if_true] at run
    cases run
    exact ⟨c, rfl, by simpa [none] using kept'⟩
  · simp only [none', not_true, false_and, if_false] at run
    cases run
    exact ⟨old, rfl, by simpa [none, none'] using kept⟩
  · simp only [none, none', not_false_iff, and_self, if_true] at run
    cases combined : combineColumns old c with
    | error e =>
        rw [combined] at run
        cases run
    | ok new =>
        rw [combined] at run
        cases run
        refine ⟨new, rfl, ?_⟩
        rw [if_neg none, if_neg none']
        exact combineColumns_kept kept kept' none none' combined

/-- A sink appends its rows. -/
theorem holds_merge {slots : Slots} (holds : Holds columns rows) (holds' : Holds sunk rows')
    (length : sunk.length = columns.length)
    (run : ((columns.map some).zip sunk).mapM (fun x => sinkColumn x.1 x.2) = .ok slots) :
    ∃ columns', slots = columns'.map some ∧ columns'.length = columns.length ∧
      Holds columns' (mergeRows rows rows') := by
  have slotsLength : slots.length = columns.length := by
    rw [← (mapM_ok_iff.mp run).length_eq, List.length_zip, List.length_map, length, Nat.min_self]
  have width (row : Row) (member : row ∈ rows ++ rows') : row.length = columns.length := by
    rcases List.mem_append.mp member with here | there
    · exact holds.width row here
    · rw [holds'.width row there, length]
  -- the column at a place
  have each (i : Nat) (inside : i < columns.length) : ∃ new, slots[i]? = some (some new) ∧
      Kept new ((mergeRows rows rows').map fun row => cellOf row i) := by
    have at' : ((columns.map some).zip sunk)[i]? = some (some columns[i], sunk[i]) := by
      rw [List.getElem?_zip_eq_some]
      simp [inside, length]
    obtain ⟨slot, slotAt, sunkTo⟩ := mapM_at run at'
    have kept := holds.column i columns[i] (List.getElem?_eq_getElem inside)
    have kept' := holds'.column i sunk[i] (List.getElem?_eq_getElem (length ▸ inside))
    obtain ⟨new, rfl, made⟩ := sinkColumn_kept kept kept' sunkTo
    refine ⟨new, slotAt, ?_⟩
    rw [mergeRows]
    simp only [List.map_eq_nil_iff] at made
    by_cases none : rows = []
    · rw [if_pos none] at made ⊢
      exact made
    · by_cases none' : rows' = []
      · rw [if_neg none, if_pos none'] at made ⊢
        exact made
      · rw [if_neg none, if_neg none'] at made ⊢
        rw [← List.map_append, List.map_map] at made
        rw [List.map_map]
        refine Eq.mp (congrArg _ (List.map_congr_left fun row member => ?_)) made
        exact (cellOf_unmaskRow (by rw [width row member]; exact inside)).symm
  have all : ∀ slot ∈ slots, ∃ new, slot = some new := by
    intro slot member
    obtain ⟨i, inside, rfl⟩ := List.getElem_of_mem member
    obtain ⟨new, at', -⟩ := each i (slotsLength ▸ inside)
    exact ⟨new, Option.some.inj ((List.getElem?_eq_getElem inside).symm.trans at')⟩
  obtain ⟨columns', rfl⟩ : ∃ columns' : List Column, slots = columns'.map some := by
    refine ⟨slots.reduceOption, ?_⟩
    clear each slotsLength run
    induction slots with
    | nil => rfl
    | cons slot rest ih =>
        obtain ⟨new, rfl⟩ := all slot List.mem_cons_self
        rw [List.reduceOption_cons_of_some, List.map_cons,
          ← ih fun slot member => all slot (List.mem_cons_of_mem _ member)]
  rw [List.length_map] at slotsLength
  refine ⟨columns', rfl, slotsLength, fun row member => ?_, fun i c here => ?_⟩
  · rw [slotsLength]
    rw [mergeRows] at member
    split_ifs at member
    · exact width row (List.mem_append_right _ member)
    · exact width row (List.mem_append_left _ member)
    · obtain ⟨old, inside, rfl⟩ := List.mem_map.mp member
      rw [unmaskRow, List.length_map]
      exact width old inside
  · obtain ⟨inside, -⟩ := List.getElem?_eq_some_iff.mp here
    obtain ⟨new, at', kept⟩ := each i (slotsLength ▸ inside)
    rw [List.getElem?_map, here] at at'
    cases at'
    exact kept

end Merge

section Run

variable {cudf : Cudf} {types : List GPUColumnType} {groups : List Nat} {plan : List (Kind × Nat)}
  {relations : List Relation} {sinks : List (Relation × List Row)}

/-- The result holds the rows of some sinks. -/
def ResultHolds (width : Nat) (slots : Slots) (parts : List (List Row)) : Prop :=
  (parts = [] ∧ slots = List.replicate width none) ∨
    ∃ columns, slots = columns.map some ∧ columns.length = width ∧ Holds columns (merged parts)

/-- The sinks of some relations. -/
structure Sunk (cudf : Cudf) (types : List GPUColumnType) (groups : List Nat)
    (plan : List (Kind × Nat)) (relations : List Relation) (sinks : List (Relation × List Row)) :
    Prop where
  relations : sinks.map Prod.fst = relations
  grouped : ∀ s ∈ sinks, GroupedRows.Groups (keyOf cudf types groups)
    (sunkAnswers cudf types plan s.1) s.1.rows (s.2.map (split cudf types groups))
  width : ∀ s ∈ sinks, ∀ row ∈ s.2, row.length = groups.length + plan.length

/-- The first sink passes its columns on. -/
theorem sink_first (sunk : List Column) :
    ((List.replicate sunk.length none).zip sunk).mapM (fun x => sinkColumn x.1 x.2) =
      .ok (sunk.map some) := by
  induction sunk with
  | nil => rfl
  | cons c rest ih =>
      rw [List.length_cons, List.replicate_succ, List.zip_cons_cons, List.mapM_cons, ih]
      rfl

theorem sink_step {slots slots' : Slots} {parts : List (List Row)} {r : Relation}
    (documented : Documented cudf) (keyed : groups ≠ []) (aggregated : plan ≠ [])
    (sinkable : Sinkable types groups r)
    (holds : ResultHolds (groups.length + plan.length) slots parts)
    (run : sink cudf groups (planned plan) slots r.columns = .ok slots') :
    ∃ rows, Sunk cudf types groups plan [r] [(r, rows)] ∧
      ResultHolds (groups.length + plan.length) slots' (parts ++ [rows]) := by
  obtain ⟨sunk, made, run⟩ := bind_ok_iff.mp run
  obtain ⟨rows, sunkRows⟩ := sinkColumns_rows documented keyed aggregated
    (sinkable.types ▸ sinkable) made
  rw [sinkable.types] at sunkRows
  have step : merged (parts ++ [rows]) = mergeRows (merged parts) rows := by
    rw [merged, List.foldl_append]
    rfl
  refine ⟨rows, ⟨rfl, ?_, ?_⟩, .inr ?_⟩
  · intro s member
    obtain rfl := List.mem_singleton.mp member
    exact sunkRows.grouped
  · intro s member row inside
    obtain rfl := List.mem_singleton.mp member
    rw [sunkRows.holds.width row inside, sunkRows.length]
  · rcases holds with ⟨rfl, rfl⟩ | ⟨columns, rfl, length, held⟩
    · refine ⟨sunk, ?_, sunkRows.length, sunkRows.holds⟩
      rw [← sunkRows.length] at run
      cases (sink_first sunk).symm.trans run
      rfl
    · rw [step]
      obtain ⟨columns', same, length', merged'⟩ :=
        holds_merge held sunkRows.holds (sunkRows.length.trans length.symm) run
      exact ⟨columns', same, length'.trans length, merged'⟩

/-- A run of sinks appends the groups of each relation. -/
theorem sink_run {slots slots' : Slots} {parts : List (List Row)} (documented : Documented cudf)
    (keyed : groups ≠ []) (aggregated : plan ≠ [])
    (sinkable : ∀ r ∈ relations, Sinkable types groups r)
    (holds : ResultHolds (groups.length + plan.length) slots parts)
    (run : (relations.map (·.columns)).foldlM (sink cudf groups (planned plan)) slots =
      .ok slots') :
    ∃ sinks, Sunk cudf types groups plan relations sinks ∧
      ResultHolds (groups.length + plan.length) slots' (parts ++ sinks.map Prod.snd) := by
  induction relations generalizing slots parts with
  | nil =>
      cases run
      exact ⟨[], ⟨rfl, nofun, nofun⟩, by rwa [List.map_nil, List.append_nil]⟩
  | cons r rest ih =>
      rw [List.map_cons, List.foldlM_cons] at run
      obtain ⟨next, stepped, run⟩ := bind_ok_iff.mp run
      obtain ⟨rows, first, held⟩ := sink_step documented keyed aggregated
        (sinkable r List.mem_cons_self) holds stepped
      obtain ⟨sinks, later, done⟩ :=
        ih (fun r member => sinkable r (List.mem_cons_of_mem _ member)) held run
      refine ⟨(r, rows) :: sinks, ⟨?_, ?_, ?_⟩, ?_⟩
      · rw [List.map_cons, later.relations]
      · intro s member
        rcases List.mem_cons.mp member with rfl | member
        · exact first.grouped _ List.mem_cons_self
        · exact later.grouped s member
      · intro s member
        rcases List.mem_cons.mp member with rfl | member
        · exact first.width _ List.mem_cons_self
        · exact later.width s member
      · rwa [List.append_assoc] at done

/-- The output of a run. -/
theorem run_output {out : List Column} (documented : Documented cudf) (keyed : groups ≠ [])
    (aggregated : plan ≠ []) (sinkable : ∀ r ∈ relations, Sinkable types groups r)
    (run : run cudf groups (planned plan) (relations.map (·.columns)) = .ok out) :
    ∃ sinks, Sunk cudf types groups plan relations sinks ∧
      outputRows cudf types groups out =
        (merged (sinks.map Prod.snd)).map (split cudf types groups) := by
  obtain ⟨slots, sunk, got⟩ := bind_ok_iff.mp run
  rw [planned, List.length_map] at sunk
  obtain ⟨sinks, all, holds⟩ := sink_run documented keyed aggregated sinkable
    (.inl ⟨rfl, rfl⟩) sunk
  refine ⟨sinks, all, ?_⟩
  have some : groups.length + plan.length ≠ 0 := by
    have positive := List.length_pos_iff.mpr keyed
    omega
  rw [List.nil_append] at holds
  rcases holds with ⟨-, rfl⟩ | ⟨columns, rfl, length, held⟩
  · obtain ⟨n, width⟩ := Nat.exists_eq_succ_of_ne_zero some
    rw [getData, width, List.replicate_succ, List.mapM_cons] at got
    cases got
  · have passed : getData (columns.map Option.some) = .ok columns := by
      rw [getData, mapM_ok_iff, List.forall₂_map_left_iff]
      exact List.forall₂_same.mpr fun c _ => rfl
    cases passed.symm.trans got
    have first : (out[0]?).elim 0 (·.columnLength) = (merged (sinks.map Prod.snd)).length := by
      have here : out[0]? = Option.some out[0] := List.getElem?_eq_getElem (by omega)
      rw [here, Option.elim_some, (held.column 0 _ here).columnLength, List.length_map]
    rw [outputRows, first, held.rowsOf]

end Run

section Exactness

variable {cudf : Cudf} {types : List GPUColumnType} {groups : List Nat} {plan : List (Kind × Nat)}
  {relations : List Relation} {sinks : List (Relation × List Row)} {r : Relation}

theorem not_mem_unmaskRow (row : Row) : none ∉ unmaskRow row := by
  intro member
  obtain ⟨value, -, missing⟩ := List.mem_map.mp member
  cases missing

theorem unmaskRow_eq {row : Row} (whole : none ∉ row) : unmaskRow row = row := by
  refine (List.map_congr_left fun value member => ?_).trans (List.map_id row)
  cases value with
  | none => exact absurd member whole
  | some bits => rfl

theorem mem_canonicalKey {keyTypes : List GPUColumnType} {key : Row}
    (length : keyTypes.length = key.length) :
    none ∈ canonicalKey cudf keyTypes key ↔ none ∈ key := by
  induction key generalizing keyTypes with
  | nil =>
      obtain rfl := List.length_eq_zero_iff.mp length
      exact Iff.rfl
  | cons value rest ih =>
      cases keyTypes with
      | nil => cases length
      | cons type later =>
          have tail := ih (Nat.succ.inj length)
          rw [canonicalKey] at tail ⊢
          rw [List.zipWith_cons_cons, List.mem_cons, List.mem_cons, tail]
          cases value <;> simp

/-- The key of a row without its mask. -/
theorem split_unmaskRow (row : Row) : split cudf types groups (unmaskRow row) =
    (canonicalKey cudf (groups.map (typeAt types)) (unmaskRow (row.take groups.length)),
      unmaskRow (split cudf types groups row).2) := by
  rw [split, split, unmaskRow, unmaskRow, unmaskRow, List.map_take, List.map_drop]

theorem rows_eq_nil_iff : r.rows = [] ↔ r.rowCount = 0 := by
  rw [← List.length_eq_zero_iff, rows_length]

theorem Sunk.rows_iff (all : Sunk cudf types groups plan relations sinks)
    {s : Relation × List Row} (member : s ∈ sinks) : s.2 = [] ↔ s.1.rowCount = 0 := by
  have grouped := all.grouped s member
  rw [← rows_eq_nil_iff]
  constructor
  · intro none
    by_contra some
    refine grouped.ne_nil some ?_
    rw [none]
    rfl
  · intro none
    rw [none] at grouped
    by_contra some
    obtain ⟨row, inside⟩ := List.exists_mem_of_ne_nil _ some
    have known := (grouped.keys (split cudf types groups row).1).mp
      (List.mem_map_of_mem (List.mem_map_of_mem inside))
    exact List.not_mem_nil known

theorem Sunk.single_iff (all : Sunk cudf types groups plan relations sinks) :
    Single (sinks.map Prod.snd) ↔ (relations.filter (·.rowCount ≠ 0)).length ≤ 1 := by
  have same : sinks.filter ((!·.isEmpty) ∘ Prod.snd) =
      sinks.filter ((fun r : Relation => decide (r.rowCount ≠ 0)) ∘ Prod.fst) := by
    refine List.filter_congr fun s member => ?_
    have rows := all.rows_iff member
    rw [Bool.eq_iff_iff]
    simp [rows]
  rw [Single, ← all.relations, List.filter_map, List.filter_map, List.length_map, List.length_map,
    same]

/-- Where one sink has rows the others have no key. -/
theorem pairwise_of_single {sinks : List (Relation × List Row)}
    (single : Single (sinks.map Prod.snd)) : sinks.Pairwise fun s s' => s.2 = [] ∨ s'.2 = [] := by
  induction sinks with
  | nil => exact List.Pairwise.nil
  | cons s rest ih =>
      rw [Single, List.map_cons] at single
      by_cases none : s.2 = []
      · rw [List.filter_cons_of_neg (by simp [none])] at single
        exact List.pairwise_cons.mpr ⟨fun _ _ => .inl none, ih single⟩
      · rw [List.filter_cons_of_pos (by simp [none]), List.length_cons] at single
        have others : ((rest.map Prod.snd).filter (!·.isEmpty)) = [] :=
          List.length_eq_zero_iff.mp (by omega)
        have later : Single (rest.map Prod.snd) := by rw [Single, others]; exact Nat.zero_le _
        refine List.pairwise_cons.mpr ⟨fun s' member => .inr ?_, ih later⟩
        have empty := List.filter_eq_nil_iff.mp others s'.2 (List.mem_map_of_mem member)
        simpa using empty

/-- An argument without data has no values. -/
theorem present_absent {rows : List Row} {child : Nat} (inside : ∀ row ∈ rows, row ∈ r.rows)
    (missing : absent r child = true) : present (rows.map fun row => cellOf row child) = [] := by
  have null (row : Row) (member : row ∈ rows) : cellOf row child = none := by
    obtain ⟨i, -, rfl⟩ := List.mem_map.mp (rows_eq r ▸ inside row member)
    rw [absent] at missing
    cases here : r.columns[child]? with
    | none =>
        rw [here] at missing
        cases missing
    | some c =>
        rw [here, Option.any_some, Option.isNone_iff_eq_none] at missing
        rw [cellOf_rowOf here, Column.shown, missing]
        rfl
  rw [List.map_congr_left null, List.map_const']
  exact UngroupedAggregate.present_replicate _

theorem sqlValue_sum {kind : Kind} {type : GPUColumnType} {values : List (Option Bytes)}
    (sum : kind.isSum = true) (nothing : present values = []) :
    sqlValue cudf kind type values = none := by
  cases kind <;> simp_all [Kind.isSum, sqlValue]

/-- A sink gives the values of SQL exactly if it sums no column without data. -/
theorem sunkAnswers_eq_iff {rows : List Row} (inside : ∀ row ∈ rows, row ∈ r.rows) :
    sunkAnswers cudf types plan r rows = answers cudf types plan rows ↔
      ∀ x ∈ plan, x.1.isSum = true → absent r x.2 = false := by
  rw [sunkAnswers, answers, List.map_inj_left]
  refine forall₂_congr fun x _ => ?_
  constructor
  · intro same sum
    by_contra missing
    rw [Bool.not_eq_false] at missing
    rw [sunkValue, if_pos ⟨sum, missing⟩, sqlValue_sum sum (present_absent inside missing)] at same
    cases same
  · intro clear
    rw [sunkValue, if_neg]
    rintro ⟨sum, missing⟩
    rw [clear sum] at missing
    cases missing

/-- The sum of a column without data is NULL. -/
theorem clear_of_whole {rows : List Row} (inside : ∀ row ∈ rows, row ∈ r.rows)
    (whole : none ∉ answers cudf types plan rows) :
    ∀ x ∈ plan, x.1.isSum = true → absent r x.2 = false := by
  intro x member sum
  by_contra missing
  rw [Bool.not_eq_false] at missing
  exact whole (List.mem_map.mpr ⟨x, member, sqlValue_sum sum (present_absent inside missing)⟩)

theorem Sunk.rows_flatten (all : Sunk cudf types groups plan relations sinks) :
    (relations.map Relation.rows).flatten = (sinks.map fun s => s.1.rows).flatten := by
  rw [← all.relations, List.map_map]
  rfl

theorem Sunk.rows_nil (all : Sunk cudf types groups plan relations sinks)
    {s : Relation × List Row} (member : s ∈ sinks) (none : s.2 = []) : s.1.rows = [] :=
  rows_eq_nil_iff.mpr ((all.rows_iff member).mp none)

theorem eq_of_short {α : Type} {l : List α} (short : l.length ≤ 1) {a b : α} (here : a ∈ l)
    (there : b ∈ l) : a = b := by
  rcases l with - | ⟨c, - | ⟨d, l⟩⟩
  · cases here
  · rw [List.mem_singleton.mp here, List.mem_singleton.mp there]
  · simp at short

/-- The rows of each sink, with the groups it has made of them. -/
def partsOf (cudf : Cudf) (types : List GPUColumnType) (groups : List Nat)
    (sinks : List (Relation × List Row)) : List (List Row × List (Row × Row)) :=
  sinks.map fun s => (s.1.rows, s.2.map (split cudf types groups))

theorem Sunk.rows_parts (all : Sunk cudf types groups plan relations sinks) :
    (relations.map Relation.rows).flatten =
      ((partsOf cudf types groups sinks).map Prod.fst).flatten := by
  rw [all.rows_flatten, partsOf, List.map_map]
  rfl

theorem groups_parts : (sinks.map Prod.snd).flatten.map (split cudf types groups) =
    ((partsOf cudf types groups sinks).map Prod.snd).flatten := by
  rw [partsOf, List.map_flatten, List.map_map, List.map_map]
  rfl

/-- If at most one sink has rows, no key is in two. -/
theorem Sunk.apart_single (all : Sunk cudf types groups plan relations sinks)
    (single : Single (sinks.map Prod.snd)) : sinks.Pairwise fun s s' =>
      GroupedRows.Apart (keyOf cudf types groups) s.1.rows s'.1.rows := by
  refine (pairwise_of_single single).imp_of_mem fun {s s'} member member' empty => ?_
  intro row here row' there
  rcases empty with none | none
  · exact absurd (all.rows_nil member none ▸ here) List.not_mem_nil
  · exact absurd (all.rows_nil member' none ▸ there) List.not_mem_nil

theorem filled_eq (single : Single (sinks.map Prod.snd)) {s s' : Relation × List Row}
    (inside : s ∈ sinks) (filled : s.2 ≠ []) (inside' : s' ∈ sinks) (filled' : s'.2 ≠ []) :
    s' = s := by
  rw [Single, List.filter_map, List.length_map] at single
  refine eq_of_short single ?_ ?_
  · exact List.mem_filter.mpr ⟨inside', by simpa using filled'⟩
  · exact List.mem_filter.mpr ⟨inside, by simpa using filled⟩

/-- The groups of the only sink with rows are those of all rows. -/
theorem Sunk.groups_filled (all : Sunk cudf types groups plan relations sinks)
    (single : Single (sinks.map Prod.snd)) {s : Relation × List Row} (inside : s ∈ sinks)
    (filled : s.2 ≠ []) : GroupedRows.Groups (keyOf cudf types groups)
      (sunkAnswers cudf types plan s.1) (relations.map Relation.rows).flatten
      ((sinks.map Prod.snd).flatten.map (split cudf types groups)) := by
  rw [all.rows_parts, groups_parts]
  refine GroupedRows.groups_flatten (fun part member => ?_)
    (List.pairwise_map.mpr (all.apart_single single))
  obtain ⟨s', member', rfl⟩ := List.mem_map.mp member
  by_cases none : s'.2 = []
  · simp only [none, all.rows_nil member' none]
    exact GroupedRows.groups_nil
  · rw [filled_eq single inside filled member' none]
    exact all.grouped s inside

theorem Sunk.rows_filled (all : Sunk cudf types groups plan relations sinks)
    (single : Single (sinks.map Prod.snd)) {s : Relation × List Row} (inside : s ∈ sinks)
    (filled : s.2 ≠ []) {row : Row} (here : row ∈ (relations.map Relation.rows).flatten) :
    row ∈ s.1.rows := by
  rw [all.rows_flatten] at here
  obtain ⟨l, known, here⟩ := List.mem_flatten.mp here
  obtain ⟨s', member', rfl⟩ := List.mem_map.mp known
  by_cases none : s'.2 = []
  · exact absurd (all.rows_nil member' none ▸ here) List.not_mem_nil
  · rwa [← filled_eq single inside filled member' none]

/-- One sink with rows. -/
theorem groups_single_iff (all : Sunk cudf types groups plan relations sinks)
    (single : Single (sinks.map Prod.snd)) :
    GroupedRows.Groups (keyOf cudf types groups) (answers cudf types plan)
        (relations.map Relation.rows).flatten
        ((sinks.map Prod.snd).flatten.map (split cudf types groups)) ↔
      ∀ r ∈ relations, r.rowCount ≠ 0 → ∀ x ∈ plan, x.1.isSum = true → absent r x.2 = false := by
  by_cases some : ∃ s ∈ sinks, s.2 ≠ []
  · obtain ⟨s, inside, filled⟩ := some
    have agree (k : Row) : sunkAnswers cudf types plan s.1 (GroupedRows.members
          (keyOf cudf types groups) (relations.map Relation.rows).flatten k) =
        answers cudf types plan (GroupedRows.members (keyOf cudf types groups)
          (relations.map Relation.rows).flatten k) ↔
        ∀ x ∈ plan, x.1.isSum = true → absent s.1 x.2 = false :=
      sunkAnswers_eq_iff fun row member =>
        all.rows_filled single inside filled (List.mem_of_mem_filter member)
    rw [(all.groups_filled single inside filled).values_iff]
    constructor
    · intro same r member rowCount
      rw [← all.relations] at member
      obtain ⟨s', member', rfl⟩ := List.mem_map.mp member
      have own := filled_eq single inside filled member' (mt (all.rows_iff member').mp rowCount)
      subst own
      obtain ⟨row, here⟩ := List.exists_mem_of_ne_nil _ (mt rows_eq_nil_iff.mp rowCount)
      have there : row ∈ (relations.map Relation.rows).flatten := by
        rw [all.rows_flatten]
        exact List.mem_flatten.mpr ⟨_, List.mem_map_of_mem member', here⟩
      exact (agree _).mp (same row there)
    · intro clear row _
      refine (agree _).mpr (clear s.1 ?_ (mt (all.rows_iff inside).mpr filled))
      rw [← all.relations]
      exact List.mem_map_of_mem inside
  · -- no sink has rows
    simp only [not_exists, not_and, ne_eq, not_not] at some
    rw [all.rows_parts, groups_parts]
    refine iff_of_true (GroupedRows.groups_flatten (fun part member => ?_)
      (List.pairwise_map.mpr (all.apart_single single))) ?_
    · obtain ⟨s', member', rfl⟩ := List.mem_map.mp member
      simp only [some s' member', all.rows_nil member' (some s' member')]
      exact GroupedRows.groups_nil
    · intro r member rowCount
      rw [← all.relations] at member
      obtain ⟨s', member', rfl⟩ := List.mem_map.mp member
      exact absurd ((all.rows_iff member').mp (some s' member')) rowCount

/-- The key of a group that has no NULL is kept without its mask. -/
theorem Sunk.split_key (all : Sunk cudf types groups plan relations sinks)
    {s : Relation × List Row} (member : s ∈ sinks) {row : Row} (inside : row ∈ s.2)
    (whole : none ∉ (split cudf types groups row).1) :
    unmaskRow (row.take groups.length) = row.take groups.length := by
  refine unmaskRow_eq fun null => whole ?_
  have width := all.width s member row inside
  rw [split]
  exact (mem_canonicalKey (by simp [width])).mpr null

/-- The groups of a sink without NULLs do not need their masks. -/
theorem Sunk.unmasked (all : Sunk cudf types groups plan relations sinks)
    {s : Relation × List Row} (member : s ∈ sinks)
    (whole : ∀ row ∈ s.1.rows, none ∉ keyOf cudf types groups row ∧
      none ∉ answers cudf types plan (GroupedRows.members (keyOf cudf types groups) s.1.rows
        (keyOf cudf types groups row))) :
    s.2.map unmaskRow = s.2 ∧ GroupedRows.Groups (keyOf cudf types groups)
      (answers cudf types plan) s.1.rows (s.2.map (split cudf types groups)) := by
  have grouped := all.grouped s member
  have same (row : Row) (here : row ∈ s.1.rows) : sunkAnswers cudf types plan s.1
      (GroupedRows.members (keyOf cudf types groups) s.1.rows (keyOf cudf types groups row)) =
      answers cudf types plan (GroupedRows.members (keyOf cudf types groups) s.1.rows
        (keyOf cudf types groups row)) := by
    have inside : ∀ row' ∈ GroupedRows.members (keyOf cudf types groups) s.1.rows
        (keyOf cudf types groups row), row' ∈ s.1.rows :=
      fun row' member => List.mem_of_mem_filter member
    exact (sunkAnswers_eq_iff inside).mpr (clear_of_whole inside (whole row here).2)
  refine ⟨?_, grouped.values_iff.mpr same⟩
  refine (List.map_congr_left fun row inside => ?_).trans (List.map_id _)
  have group := List.mem_map_of_mem (f := split cudf types groups) inside
  obtain ⟨row', here, key⟩ := List.mem_map.mp ((grouped.keys _).mp (List.mem_map_of_mem group))
  have value := grouped.values _ group
  rw [← key, same row' here] at value
  have first := all.split_key member inside (key ▸ (whole row' here).1)
  have second : unmaskRow (row.drop groups.length) = row.drop groups.length := by
    refine unmaskRow_eq ?_
    change none ∉ (split cudf types groups row).2
    rw [value]
    exact (whole row' here).2
  calc unmaskRow row = unmaskRow (row.take groups.length ++ row.drop groups.length) := by
        rw [List.take_append_drop]
    _ = unmaskRow (row.take groups.length) ++ unmaskRow (row.drop groups.length) := List.map_append
    _ = row.take groups.length ++ row.drop groups.length := by rw [first, second]
    _ = row := List.take_append_drop _ _

/-- In groups without masks no key has a NULL. -/
theorem Sunk.keys_whole (all : Sunk cudf types groups plan relations sinks)
    (whole : GroupedRows.Groups (keyOf cudf types groups) (answers cudf types plan)
      (relations.map Relation.rows).flatten
      (((sinks.map Prod.snd).flatten.map unmaskRow).map (split cudf types groups)))
    {s : Relation × List Row} (member : s ∈ sinks) {row : Row} (here : row ∈ s.1.rows) :
    none ∉ keyOf cudf types groups row := by
  have known : keyOf cudf types groups row ∈
      (relations.map Relation.rows).flatten.map (keyOf cudf types groups) := by
    rw [all.rows_flatten]
    exact List.mem_map_of_mem (List.mem_flatten.mpr ⟨_, List.mem_map_of_mem member, here⟩)
  obtain ⟨group, there, same⟩ := List.mem_map.mp ((whole.keys _).mpr known)
  obtain ⟨bare, inside, rfl⟩ := List.mem_map.mp there
  obtain ⟨row', raw, rfl⟩ := List.mem_map.mp inside
  obtain ⟨l, known', inside'⟩ := List.mem_flatten.mp raw
  obtain ⟨s', member', rfl⟩ := List.mem_map.mp known'
  rw [← same, split_unmaskRow]
  intro null
  have width := all.width s' member' row' inside'
  refine not_mem_unmaskRow (row'.take groups.length) ((mem_canonicalKey ?_).mp null)
  simp [unmaskRow, width]

/-- Keys without NULLs do not need their masks. -/
theorem Sunk.kept_key (all : Sunk cudf types groups plan relations sinks)
    {s : Relation × List Row} (member : s ∈ sinks)
    (keys : ∀ row ∈ s.1.rows, none ∉ keyOf cudf types groups row) {row : Row}
    (inside : row ∈ s.2) :
    (split cudf types groups (unmaskRow row)).1 = (split cudf types groups row).1 := by
  have group := List.mem_map_of_mem (f := split cudf types groups) inside
  obtain ⟨row', here, key⟩ := List.mem_map.mp
    (((all.grouped s member).keys _).mp (List.mem_map_of_mem group))
  rw [split_unmaskRow, all.split_key member inside (key ▸ keys row' here)]
  rfl

/-- Sinks whose groups without masks have distinct keys share none. -/
theorem Sunk.apart_once (all : Sunk cudf types groups plan relations sinks)
    (keys : ∀ s ∈ sinks, ∀ row ∈ s.1.rows, none ∉ keyOf cudf types groups row)
    (once : ((((sinks.map Prod.snd).flatten.map unmaskRow).map
      (split cudf types groups)).map Prod.fst).Nodup) : sinks.Pairwise fun s s' =>
      GroupedRows.Apart (keyOf cudf types groups) s.1.rows s'.1.rows := by
  have outKeys : (((sinks.map Prod.snd).flatten.map unmaskRow).map
      (split cudf types groups)).map Prod.fst =
        ((sinks.map fun s => (s.1.rows, (s.2.map (split cudf types groups)).map Prod.fst)).map
          Prod.snd).flatten := by
    rw [List.map_map, List.map_map, List.map_flatten, List.map_map, List.map_map]
    refine congrArg List.flatten (List.map_congr_left fun s member => ?_)
    simp only [Function.comp_apply, List.map_map]
    exact List.map_congr_left fun row inside => all.kept_key member (keys s member) inside
  rw [outKeys] at once
  have each : ∀ part ∈ sinks.map fun s =>
      (s.1.rows, (s.2.map (split cudf types groups)).map Prod.fst), ∀ k,
        k ∈ part.2 ↔ k ∈ part.1.map (keyOf cudf types groups) := by
    intro part member k
    obtain ⟨s, inside, rfl⟩ := List.mem_map.mp member
    exact (all.grouped s inside).keys k
  have parts := GroupedRows.pairwise_apart each once
  rwa [List.pairwise_map] at parts

/-- Several sinks, whose masks are left behind. -/
theorem groups_several_iff (all : Sunk cudf types groups plan relations sinks) :
    GroupedRows.Groups (keyOf cudf types groups) (answers cudf types plan)
        (relations.map Relation.rows).flatten
        (((sinks.map Prod.snd).flatten.map unmaskRow).map (split cudf types groups)) ↔
      (relations.Pairwise fun r r' => GroupedRows.Apart (keyOf cudf types groups) r.rows r'.rows) ∧
        ∀ r ∈ relations, ∀ row ∈ r.rows, none ∉ keyOf cudf types groups row ∧
          none ∉ answers cudf types plan (GroupedRows.members (keyOf cudf types groups) r.rows
            (keyOf cudf types groups row)) := by
  constructor
  · intro whole
    have keys (s : Relation × List Row) (member : s ∈ sinks) (row : Row) (here : row ∈ s.1.rows) :=
      all.keys_whole whole member here
    have apart := all.apart_once keys whole.once
    refine ⟨?_, fun r known row here => ?_⟩
    · rw [← all.relations, List.pairwise_map]
      exact apart
    · rw [← all.relations] at known
      obtain ⟨s, member, rfl⟩ := List.mem_map.mp known
      refine ⟨keys s member row here, ?_⟩
      obtain ⟨group, there, same⟩ := List.mem_map.mp
        (((all.grouped s member).keys _).mpr (List.mem_map_of_mem here))
      obtain ⟨row', inside, rfl⟩ := List.mem_map.mp there
      have value := whole.values (split cudf types groups (unmaskRow row'))
        (List.mem_map_of_mem (List.mem_map_of_mem
          (List.mem_flatten.mpr ⟨_, List.mem_map_of_mem member, inside⟩)))
      rw [all.kept_key member (keys s member) inside, same, split_unmaskRow, all.rows_flatten,
        GroupedRows.members_flatten (List.pairwise_map.mpr apart) (List.mem_map_of_mem member)
          here] at value
      rw [← value]
      exact not_mem_unmaskRow _
  · rintro ⟨apart, whole⟩
    rw [← all.relations, List.pairwise_map] at apart
    have bare (s : Relation × List Row) (member : s ∈ sinks) :=
      all.unmasked member (whole s.1 (all.relations ▸ List.mem_map_of_mem member))
    have unmasked : (sinks.map Prod.snd).flatten.map unmaskRow =
        (sinks.map Prod.snd).flatten := by
      refine (List.map_congr_left fun row member => ?_).trans (List.map_id _)
      obtain ⟨rows, known, inside⟩ := List.mem_flatten.mp member
      obtain ⟨s, member', rfl⟩ := List.mem_map.mp known
      exact List.map_inj_left.mp ((bare s member').1.trans (List.map_id _).symm) row inside
    rw [unmasked, all.rows_parts, groups_parts]
    refine GroupedRows.groups_flatten (fun part member => ?_) (List.pairwise_map.mpr apart)
    obtain ⟨s, inside, rfl⟩ := List.mem_map.mp member
    exact (bare s inside).2

/-- A grouped aggregation that raises nothing returns the GROUP BY of all rows that were sunk
exactly under these conditions. -/
theorem grouped_exact_iff (documented : Documented cudf) (keyed : groups ≠ [])
    (aggregated : plan ≠ []) (sinkable : ∀ r ∈ relations, Sinkable types groups r)
    {out : List Column}
    (ran : run cudf groups (planned plan) (relations.map (·.columns)) = .ok out) :
    IsGroupBy cudf types groups plan relations out ↔ Exact cudf types groups plan relations := by
  obtain ⟨sinks, all, rows⟩ := run_output documented keyed aggregated sinkable ran
  rw [IsGroupBy, GroupedRows.perm_groupBy_iff, rows, Exact]
  rcases merged_eq (sinks.map Prod.snd) with ⟨single, same⟩ | ⟨several, same⟩
  · rw [same, groups_single_iff all single, if_pos (all.single_iff.mp single)]
    refine (and_iff_right ?_).symm
    rw [← all.relations, List.pairwise_map]
    exact all.apart_single single
  · rw [same, groups_several_iff all, if_neg (mt all.single_iff.mpr several)]

end Exactness

section Witness

/-- A groupby of integers: equal values have equal bits. -/
def integers : Cudf where
  groupby := fun _ _ _ => .error .fault
  getGroups := DuplicateElimination.groupRows
  castValue := fun _ _ bits => bits
  aggregate
    | .sum, _, values => encode 8 (values.map signed).sum
    | .min, _, values => values.foldl (fun a b => if signed b < signed a then b else a)
        (values.headD [])
    | .max, _, values => values.foldl (fun a b => if signed a < signed b then b else a)
        (values.headD [])
    | _, _, values => values.headD []
  canonical := fun _ bits => bits

def resultTypeOf (request : AggregationRequest) : GPUColumnType :=
  match request.aggregation with
  | .count | .nunique => .int32
  | .sum => .int64
  | _ => request.values.type

def integerCudf : Cudf :=
  { integers with
    groupby := fun _ keys requests =>
      let rows := List.range ((keys.head?.map (·.values.length)).getD 0)
      let tuples := (rows.map (rowAt keys)).dedup
      .ok (keys.mapIdx fun i column => ⟨column.type, tuples.map fun tuple => cellOf tuple i⟩,
        requests.map fun request => ⟨resultTypeOf request, tuples.map fun tuple =>
          requested integers request (GroupedRows.members (rowAt keys) rows tuple)⟩) }

theorem canonicalKey_integers {types : List GPUColumnType} {key : Row}
    (length : types.length = key.length) : canonicalKey integerCudf types key = key := by
  refine List.ext_getElem (by simp [canonicalKey, length]) fun i inside inside' => ?_
  simp only [canonicalKey, List.getElem_zipWith]
  exact Option.map_id_fun ▸ rfl

theorem integerCudf_documented : Documented integerCudf where
  grouped := by
    intro _ keys requests count out some long _ ran
    have size : (keys.head?.map (·.values.length)).getD 0 = count := by
      obtain ⟨first, rest, rfl⟩ := List.exists_cons_of_ne_nil some
      exact long first (by simp)
    let rows := List.range count
    let tuples := (rows.map (rowAt keys)).dedup
    have result : out = (keys.mapIdx fun i column =>
        ⟨column.type, tuples.map fun tuple => cellOf tuple i⟩,
        requests.map fun request => ⟨resultTypeOf request, tuples.map fun tuple =>
          requested integers request
            (GroupedRows.members (rowAt keys) rows tuple)⟩) := by
      have same := (Except.ok.inj ran).symm
      simpa [rows, tuples, size] using same
    have width (tuple : Row) (member : tuple ∈ tuples) : tuple.length = keys.length := by
      obtain ⟨row, -, rfl⟩ := List.mem_map.mp (List.mem_dedup.mp member)
      exact List.length_map _
    have same (row : Nat) : canonicalKey integerCudf (keys.map (·.type))
        (rowAt keys row) = rowAt keys row :=
      canonicalKey_integers (by simp [rowAt])
    refine ⟨tuples.length, ?_, ?_, ?_, ?_⟩
    · rw [result]
      exact List.ext_getElem (by simp) fun i inside inside' => by simp
    · rw [result]
      exact List.length_map _
    · intro column member
      rw [result] at member
      rcases List.mem_append.mp member with key | value
      · obtain ⟨i, inside, rfl⟩ := List.mem_mapIdx.mp key
        exact List.length_map _
      · obtain ⟨request, -, rfl⟩ := List.mem_map.mp value
        exact List.length_map _
    · simp only [same]
      have groups := @GroupedRows.groups_groupBy _ _ _ _ (rowAt keys)
        (fun rows => requests.map fun request => requested integerCudf request rows) rows
      refine Eq.mp (congrArg _ ?_) groups
      refine List.ext_getElem (by simp [GroupedRows.groupBy, tuples]) fun g inside inside' => ?_
      have here : g < tuples.length := by simpa using inside'
      have tuple : rowAt out.1 g = tuples[g] := by
        rw [result]
        have size := width tuples[g] (List.getElem_mem here)
        refine List.ext_getElem (by simp [rowAt, size]) fun i inside inside' => ?_
        simp [rowAt, cellOf, List.getElem?_eq_getElem here, List.getElem?_eq_getElem inside']
      have values : rowAt out.2 g = requests.map fun request => requested integerCudf request
          (GroupedRows.members (rowAt keys) rows tuples[g]) := by
        rw [result]
        refine List.ext_getElem (by simp [rowAt]) fun i inside inside' => ?_
        simp [rowAt, List.getElem?_eq_getElem here]
        rfl
      simp only [List.getElem_map, List.getElem_range, GroupedRows.groupBy]
      rw [tuple, values, canonicalKey_integers
        (by rw [width _ (List.getElem_mem here), List.length_map])]
  zeros n := by
    have zero : signed (countBytes 0) = 0 := by decide
    change encode 8 ((List.replicate (n + 1) (countBytes 0)).map signed).sum = countBytes 0
    rw [List.map_replicate, zero, List.sum_replicate]
    simp [countBytes]

/-- Keys and values of `BIGINT`; a value of zero is NULL. -/
def integerColumn (values : List Nat) : Column :=
  plainColumn .int64 (values.map fun n => ⟨countBytes n, n ≠ 0⟩) (8 * values.length) false

def twoColumns (keys values : List Nat) (same : keys.length = values.length) : Relation where
  columns := [integerColumn keys, integerColumn values]
  rowCount := keys.length
  some := by simp
  even c member _ := by
    rcases List.mem_pair.mp member with rfl | rfl
    · exact List.length_map _
    · exact (List.length_map _).trans same.symm
  empty c member null := by
    rcases List.mem_pair.mp member with rfl | rfl <;> cases null
  measured c member string := by
    rcases List.mem_pair.mp member with rfl | rfl <;> cases string

def twoSinks : List Relation :=
  [twoColumns [1, 1, 2] [5, 0, 7] rfl, twoColumns [] [] rfl, twoColumns [3] [4] rfl]

def countAndSum : List (Kind × Nat) := [(.countStar, 1), (.sum, 1), (.count, 1)]

theorem twoColumns_sinkable (keys values : List Nat) (same : keys.length = values.length) :
    Sinkable [.int64, .int64] [0] (twoColumns keys values same) where
  types := rfl
  sized := List.length_map _
  keyed := by
    intro _ group member c here
    obtain rfl := List.mem_singleton.mp member
    cases here
    nofun

/-- Two relations with rows and one without, and no NULL in a result. -/
theorem two_sinks_grouped : ∃ out,
    run integerCudf [0] (planned countAndSum) (twoSinks.map (·.columns)) = .ok out ∧
      IsGroupBy integerCudf [.int64, .int64] [0] countAndSum twoSinks out := by
  have returned : (run integerCudf [0] (planned countAndSum)
      (twoSinks.map (·.columns))).isOk = true := by decide
  cases ran : run integerCudf [0] (planned countAndSum) (twoSinks.map (·.columns)) with
  | error e =>
      rw [ran] at returned
      cases returned
  | ok out =>
      refine ⟨out, rfl, (grouped_exact_iff integerCudf_documented (by decide) (by decide)
        (fun r member => ?_) ran).mpr ⟨?_, ?_⟩⟩
      · simp only [twoSinks, List.mem_cons, List.not_mem_nil, or_false] at member
        rcases member with rfl | rfl | rfl <;> exact twoColumns_sinkable _ _ _
      · unfold GroupedRows.Apart
        decide
      · decide

end Witness

end GroupedAggregate
