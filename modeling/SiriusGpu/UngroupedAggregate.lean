import Mathlib
import SiriusGpu.AggregateInputs
import SiriusGpu.ResultCollector

/-!
# Ungrouped aggregates

`HandleAggregateExpressionCuDF`, `cudf_aggregate` and `GetData`. The first column decides
whether there are rows. A scalar of cudf is stored as valid, and `GetData` keeps the data of a
result alone. The reductions of cudf are a parameter.
-/

namespace UngroupedAggregate

open GpuMemory (Exception Bytes)
open GpuColumns (GPUColumnType decimalTypeSize getColumnTypeSize)
open GpuExpressions (CudfColumn convertToCudfColumn convertToCudfColumn_inv setFromCudfColumn
  setFromCudfColumn_inv setFromCudfColumn_type Stored int32Max)
open ResultCollector (encode signed)
open ColumnValues AggregateInputs FallibleMaps

section Reductions

inductive Reduction
  | sum | mean | min | max | nunique
  deriving DecidableEq

/-- A scalar of cudf; the bits of one that is not valid have no meaning. -/
structure Scalar where
  type : GPUColumnType
  bits : Bytes
  valid : Bool
  deriving DecidableEq

def present (values : List (Option Bytes)) : List Bytes := values.reduceOption

/-- A count as `INT64`. -/
def countBytes (n : Nat) : Bytes := encode 8 n

/-- The number of values of which no later one is the same. -/
def distinctCount (same : Bytes → Bytes → Bool) : List Bytes → Nat
  | [] => 0
  | bits :: rest =>
    if rest.any (same bits) then distinctCount same rest else distinctCount same rest + 1

/-- The reductions of cudf, which are right: `aggregate` is the value of some values in a type,
without values a scalar is not valid, and the number of distinct values is one of 32 or of 64
bits. -/
structure Cudf where
  reduce : Reduction → CudfColumn → GPUColumnType → Except Exception Scalar
  castValue : GPUColumnType → GPUColumnType → Bytes → Bytes
  aggregate : Reduction → GPUColumnType → GPUColumnType → List Bytes → Bytes
  same : GPUColumnType → Bytes → Bytes → Bool
  reduced : ∀ op column type scalar, op ≠ .nunique → reduce op column type = .ok scalar →
    scalar.type = type ∧ (scalar.valid = true ↔ present column.values ≠ []) ∧
      (present column.values ≠ [] →
        scalar.bits = aggregate op column.type type (present column.values))
  counted : ∀ column type scalar, reduce .nunique column type = .ok scalar →
    scalar.type = .int64 ∧
        scalar.bits = countBytes (distinctCount (same column.type) (present column.values)) ∨
      scalar.type = .int32 ∧ castValue .int32 .int64 scalar.bits =
        countBytes (distinctCount (same column.type) (present column.values))

def Cudf.distinct (cudf : Cudf) (type : GPUColumnType) (values : List Bytes) : Nat :=
  distinctCount (cudf.same type) values

end Reductions

section Model

variable (cudf : Cudf)

/-- `convertInt32ToInt64`. -/
def convertInt32ToInt64 (bits : Bytes) : Bytes := encode 8 (signed bits)

def widenEntry (e : Entry) : Entry := ⟨convertInt32ToInt64 e.bits, e.valid⟩

def widened (c : Column) : Column where
  type := .int64
  entries := c.entries.map (·.map widenEntry)
  columnLength := c.columnLength
  rowIds := c.rowIds
  numBytes := c.numBytes * 2
  isUnique := c.isUnique
  long es same := by
    obtain ⟨es', here, rfl⟩ := Option.map_eq_some_iff.mp same
    rw [List.length_map]
    exact c.long es' here
  inside es same ids here i member := by
    obtain ⟨es', here', rfl⟩ := Option.map_eq_some_iff.mp same
    rw [List.length_map]
    exact c.inside es' here' ids here i member

/-- `sum_no_overflow` of `INT32` is a sum of `INT64`. -/
def prepareSum (aggregate : BoundAggregate) (slot : Option Column) : Option Column :=
  slot.map fun c =>
    if aggregate.distinct = false ∧ aggregate.name = "sum_no_overflow" ∧ c.entries ≠ none ∧
      c.type = .int32 then widened c else c

/-- The type of the result is chosen by the number of rows. -/
def sumType (type : GPUColumnType) (numRows : Nat) : GPUColumnType :=
  match type with
  | .int32 => if numRows > 1 then .int64 else .int32
  | .int16 =>
    if numRows > 2147483647 / 32767 then .int64
    else if numRows > 1 then .int32
    else .int16
  | type => type

/-- A column of one value without mask. -/
def oneValue (type : GPUColumnType) (bits : Bytes) (numBytes : Nat) : Column :=
  plainColumn type [⟨bits, true⟩] numBytes false

def countColumn (n : Nat) : Column := oneValue .int64 (countBytes n) 8

def scalarType : GPUColumnType → Except Exception GPUColumnType
  | .decimal width scale =>
    if decimalTypeSize width = 4 then .ok (.decimal 9 scale)
    else if decimalTypeSize width = 8 then .ok (.decimal 18 scale)
    else .error unsupportedScalar
  | .varchar | .int128 | .timestampSec | .timestampMs | .timestampUs | .timestampNs =>
    .error unsupportedScalar
  | type => .ok type
where unsupportedScalar : Exception :=
  .notImplemented "Unsupported cudf data type in `setFromCudfScalar`"

/-- `setFromCudfScalar`: the mask of the column is set in any case. -/
def setFromCudfScalar (scalar : Scalar) (isUnique : Bool) : Except Exception Column := do
  let type ← scalarType scalar.type
  .ok (plainColumn type [⟨scalar.bits, true⟩] (getColumnTypeSize type) isUnique)

def castColumn (column : CudfColumn) (type : GPUColumnType) : CudfColumn :=
  ⟨type, column.values.map (·.map (cudf.castValue column.type type))⟩

/-- The types whose average is that of doubles. -/
def castsAverage : GPUColumnType → Bool
  | .int16 | .int32 | .int64 | .decimal _ _ => true
  | _ => false

def averageColumn (c : Column) : Except Exception Column :=
  if castsAverage c.type then do
    let fromCudfColumnView ← convertToCudfColumn c
    setFromCudfColumn (castColumn cudf fromCudfColumnView .float64) false
  else .ok c

def reduceColumn (op : Reduction) (type : CudfColumn → GPUColumnType) (c : Column) :
    Except Exception Column := do
  let cudfColumn ← convertToCudfColumn c
  let result ← cudf.reduce op cudfColumn (type cudfColumn)
  setFromCudfScalar result c.isUnique

/-- FIRST copies the first value; from a null pointer nothing is copied, and the new buffer
keeps what it held. Of other types the column is left. -/
def firstColumn (uninitialized : Bytes) (c : Column) : Except Exception Column :=
  match c.type with
  | .int64 | .int32 | .float32 | .float64 | .boolean =>
    .ok (oneValue c.type ((c.entries.map fun es => (es.headD ⟨[], false⟩).bits).getD uninitialized)
      (getColumnTypeSize c.type))
  | .varchar =>
    match c.entries with
    | none => .error .fault
    | some es => .ok (oneValue .varchar (es.headD ⟨[], false⟩).bits
        (es.headD ⟨[], false⟩).bits.length)
  | _ => .ok c

variable (uninitialized : Bytes)

/-- An aggregate of a column, in an input with rows. -/
def aggregateColumn (size : Nat) (type : AggregationType) (c : Column) : Except Exception Column :=
  if c.entries = none ∧ type = .count ∧ c.columnLength = 0 then .ok (countColumn 0)
  else if c.entries = none ∧ type = .sum ∧ c.columnLength = 0 then .ok (countColumn 0)
  else if c.entries = none ∧ type = .countStar ∧ c.columnLength ≠ 0 then .ok (countColumn size)
  else match type with
    | .sum => reduceColumn cudf .sum (fun column => sumType column.type column.values.length) c
    | .average => do
      let c ← averageColumn cudf c
      reduceColumn cudf .mean CudfColumn.type c
    | .min => reduceColumn cudf .min CudfColumn.type c
    | .max => reduceColumn cudf .max CudfColumn.type c
    | .count => .ok (countColumn size)
    | .countDistinct => reduceColumn cudf .nunique CudfColumn.type c
    | .first => firstColumn uninitialized c
    | .countStar => .error (.notImplemented "Aggregate function not supported")

/-- The column without rows; its data are kept. -/
theorem withoutRows_long (c : Column) (es : List Entry)
    (same : (c.entries.map fun _ => []) = some es) : es.length = 0 := by
  obtain ⟨_, -, rfl⟩ := Option.map_eq_some_iff.mp same
  rfl

theorem withoutRows_inside (c : Column) (es : List Entry)
    (_ : (c.entries.map fun _ => []) = some es) (ids : List Nat) (none : none = some ids) (i : Nat)
    (_ : i ∈ ids) : i < es.length := by
  cases none

def withoutRows (c : Column) : Column where
  type := c.type
  entries := c.entries.map fun _ => []
  columnLength := 0
  rowIds := none
  numBytes := 0
  isUnique := false
  long := withoutRows_long c
  inside := withoutRows_inside c

/-- An aggregate of an input without rows. -/
def emptyAggregate (type : AggregationType) (slot : Option Column) : Except Exception Column :=
  if type = .countStar ∨ type = .count ∨ type = .countDistinct then .ok (countColumn 0)
  else match slot with
    | none => .error nullPointer
    | some c => .ok (withoutRows c)

/-- Whether a column gives the number of rows. -/
def counts (type : AggregationType) (slot : Option Column) : Bool :=
  slot.any fun c => c.entries.isSome || type = .countStar && 0 < c.columnLength

/-- The number of rows of the first column that gives it. -/
def inputSize (columns : List (AggregationType × Option Column)) : Nat :=
  ((columns.find? fun x => counts x.1 x.2).bind (·.2)).elim 0 (·.columnLength)

/-- `cudf_aggregate`. -/
def cudfAggregate (columns : List (AggregationType × Option Column)) :
    Except Exception (List Column) :=
  match columns with
  | (_, some first) :: _ =>
    if first.columnLength = 0 then columns.mapM fun x => emptyAggregate x.1 x.2
    else columns.mapM fun x =>
      match x.2 with
      | some c => aggregateColumn cudf uninitialized (inputSize columns) x.1 c
      | none => .error nullPointer
  | _ => .error nullPointer

/-- A COUNT of DISTINCT values is an `INT64`. -/
def castCount (type : AggregationType) (c : Column) : Except Exception Column :=
  if type = .countDistinct ∧ c.type ≠ .int64 then do
    let fromCudfColumnView ← convertToCudfColumn c
    setFromCudfColumn (castColumn cudf fromCudfColumnView .int64) false
  else .ok c

/-- A column of the output: of strings the offsets are missing. -/
structure Output where
  type : GPUColumnType
  columnLength : Nat
  data : Option (List Bytes)
  deriving DecidableEq

/-- `GetData` passes on the length, the type and the data. -/
def getData (c : Column) : Output := ⟨c.type, c.columnLength, c.entries.map (·.map Entry.bits)⟩

def results (columns : List Column) (aggregates : List BoundAggregate) :
    Except Exception (List Output) := do
  let (types, slots) ← aggregateInputs columns aggregates
  let slots := List.zipWith prepareSum aggregates slots
  let reduced ← cudfAggregate cudf uninitialized (types.zip slots)
  let reduced ← (types.zip reduced).mapM fun x => castCount cudf x.1 x.2
  .ok (reduced.map getData)

end Model

section Meaning

/-- The aggregates that are supported. -/
inductive Kind
  | countStar | count | countDistinct | sum | sumNoOverflow | average | min | max | first
  deriving DecidableEq

def Kind.name : Kind → String
  | .countStar => "count_star"
  | .count | .countDistinct => "count"
  | .sum => "sum"
  | .sumNoOverflow => "sum_no_overflow"
  | .average => "avg"
  | .min => "min"
  | .max => "max"
  | .first => "first"

theorem Kind.single (kind : Kind) : kind.name = "count" →
    (if kind = .countStar then 0 else 1) ≤ 1 := by
  intro _
  split
  · exact Nat.zero_le _
  · exact Nat.le_refl _

/-- An aggregate of a plan: `*` or an argument, without filter. -/
def Kind.aggregate (kind : Kind) : Aggregate where
  name := kind.name
  arguments := if kind = .countStar then 0 else 1
  filtered := false
  distinct := kind = .countDistinct
  single := kind.single

def planned (kinds : List Kind) : List BoundAggregate :=
  extractAggregateExpressions 0 (kinds.map Kind.aggregate)

variable (cudf : Cudf) (r : Relation)

/-- The values of an argument. -/
def argumentValues (index : Nat) : List (Option Bytes) :=
  (List.range r.rowCount).map (cellAt r index)

/-- The type an argument is aggregated in, and its values there. -/
def aggregatedIn (kind : Kind) (type : GPUColumnType) : GPUColumnType × (Bytes → Bytes) :=
  if kind = .average ∧ castsAverage type then (.float64, cudf.castValue type .float64)
  else if kind = .sumNoOverflow ∧ type = .int32 then (.int64, convertInt32ToInt64)
  else (type, id)

def reductionOf : Kind → Reduction
  | .average => .mean
  | .min => .min
  | .max => .max
  | _ => .sum

/-- The type of the result of a reduction of `n` rows. -/
def resultType (kind : Kind) (argument : GPUColumnType) (n : Nat) : GPUColumnType :=
  match kind with
  | .sum | .sumNoOverflow => sumType (aggregatedIn cudf kind argument).1 n
  | _ => (aggregatedIn cudf kind argument).1

/-- The value SQL gives an aggregate of some values. -/
def sqlValue (kind : Kind) (argument : GPUColumnType) (values : List (Option Bytes)) :
    Option Bytes :=
  match kind with
  | .countStar => some (countBytes values.length)
  | .count => some (countBytes (present values).length)
  | .countDistinct => some (countBytes (cudf.distinct argument (present values)))
  | .first => values.head?.join
  | kind =>
    if present values = [] then none
    else some (cudf.aggregate (reductionOf kind) (aggregatedIn cudf kind argument).1
      (resultType cudf kind argument values.length)
      ((present values).map (aggregatedIn cudf kind argument).2))

/-- The one row of a column of the output. Strings cannot be read. -/
def Output.HasValue (o : Output) (value : Option Bytes) : Prop :=
  o.columnLength = 1 ∧ o.type ≠ .varchar ∧ o.data.bind (·[0]?) = value

/-- The index of the argument of an aggregate: `*` has none. -/
def argumentIndex (kinds : List Kind) (place : Nat) : Nat :=
  ((kinds.take place).filter (· ≠ .countStar)).length

def argumentType (index : Nat) : GPUColumnType := (r.columns[index]?).elim .int64 (·.type)

/-- The value of SQL for the aggregate at a place. -/
def expected (kinds : List Kind) (place : Nat) (kind : Kind) : Option Bytes :=
  sqlValue cudf kind (argumentType r (argumentIndex kinds place))
    (argumentValues r (argumentIndex kinds place))

/-- The rows of the column of the first aggregate. -/
def firstRows (kinds : List Kind) : Nat :=
  match kinds with
  | [] => 0
  | .countStar :: _ => columnSize r.columns
  | _ :: _ => (r.columns[0]?).elim 0 (·.shown.length)

/-- The types FIRST copies a value of. -/
def copied : GPUColumnType → Bool
  | .int64 | .int32 | .float32 | .float64 | .boolean => true
  | _ => false

/-- Where the result of an aggregate is that of SQL, in an input with rows. -/
def Determined (kind : Kind) (index : Nat) : Prop :=
  match kind with
  | .countStar | .countDistinct => True
  | .count => (∀ c ∈ r.columns[index]?, c.entries = none) ∨ none ∉ argumentValues r index
  | .first => (argumentValues r index).head?.join ≠ none ∧
      (copied (argumentType r index) = true ∨
        argumentType r index ≠ .varchar ∧ r.rowCount = 1)
  | _ => present (argumentValues r index) ≠ []

/-- One row, with the values of SQL. -/
def Answers (kinds : List Kind) (out : List Output) : Prop :=
  out.length = kinds.length ∧ ∀ (place : Nat) kind, kinds[place]? = some kind →
    ∃ o, out[place]? = some o ∧ o.HasValue (expected cudf r kinds place kind)

/-- A count of nothing. -/
def CountsNothing (kind : Kind) (index : Nat) : Prop :=
  match kind with
  | .countStar => r.rowCount = 0
  | .count | .countDistinct => present (argumentValues r index) = []
  | _ => False

/-- Without rows in the first column all aggregates are counts, and of nothing. -/
def Exact (kinds : List Kind) : Prop :=
  ∀ (place : Nat) kind, kinds[place]? = some kind →
    if firstRows r kinds = 0 then CountsNothing r kind (argumentIndex kinds place)
    else Determined r kind (argumentIndex kinds place)

end Meaning

section Values

theorem present_map (values : List (Option Bytes)) (f : Bytes → Bytes) :
    present (values.map (·.map f)) = (present values).map f := by
  induction values with
  | nil => rfl
  | cons value rest ih =>
      cases value with
      | none => exact ih
      | some bits => exact congrArg (f bits :: ·) ih

theorem present_replicate (n : Nat) : present (List.replicate n none) = [] := by
  induction n with
  | zero => rfl
  | succ n ih => exact ih

theorem present_length_iff (values : List (Option Bytes)) :
    (present values).length = values.length ↔ none ∉ values := by
  induction values with
  | nil => simp [present]
  | cons value rest ih =>
      have most : (present rest).length ≤ rest.length := List.reduceOption_length_le rest
      cases value with
      | none =>
          simp only [present, List.reduceOption_cons_of_none, List.length_cons, List.mem_cons,
            true_or, not_true, iff_false]
          rw [present] at most
          omega
      | some bits => simpa [present] using ih

theorem countBytes_inj {a b : Nat} (small : a < 256 ^ 8) (small' : b < 256 ^ 8)
    (same : countBytes a = countBytes b) : a = b := by
  have unsigned (n : Nat) (small : n < 256 ^ 8) :
      ResultCollector.unsigned (countBytes n) = n := by
    rw [countBytes, encode, ResultCollector.unsigned_bytesOf]
    · have : ((n : Int) % 256 ^ 8) = n := Int.emod_eq_of_lt (by omega) (by exact_mod_cast small)
      rw [this, Int.toNat_natCast]
    · have : ((n : Int) % 256 ^ 8) = n := Int.emod_eq_of_lt (by omega) (by exact_mod_cast small)
      rw [this, Int.toNat_natCast]
      exact small
  rw [← unsigned a small, ← unsigned b small', same]

variable {r : Relation} {c c' : Column} {index : Nat}

/-- The values of a column with data are those it shows. -/
theorem argumentValues_data (here : r.columns[index]? = some c) (data : c.entries ≠ none) :
    argumentValues r index = c.shown.map Entry.value := by
  have length := shown_count (List.mem_of_getElem? here) data
  refine List.ext_getElem (by simp [argumentValues, length]) fun row inside inside' => ?_
  have shown : row < c.shown.length := by simpa using inside'
  simp [argumentValues, cellAt, here, Column.cell, shown]

/-- A column without data is NULL in every row. -/
theorem argumentValues_null (here : r.columns[index]? = some c) (null : c.entries = none) :
    argumentValues r index = List.replicate r.rowCount none := by
  refine List.ext_getElem (by simp [argumentValues]) fun row inside inside' => ?_
  simp [argumentValues, cellAt, here, Column.cell, Column.shown, null]

theorem present_shown (here : r.columns[index]? = some c) :
    present (c.shown.map Entry.value) = present (argumentValues r index) := by
  by_cases null : c.entries = none
  · rw [argumentValues_null here null, present_replicate, Column.shown, null]
    rfl
  · rw [argumentValues_data here null]

end Values

section Slots

/-- The aggregate at a place of the plan. -/
def boundAt (kinds : List Kind) (place : Nat) (kind : Kind) : BoundAggregate where
  name := kind.name
  children := if kind = .countStar then [] else [argumentIndex kinds place]
  filter := none
  distinct := kind = .countDistinct

theorem argumentIndex_succ (kind : Kind) (rest : List Kind) (place : Nat) :
    argumentIndex (kind :: rest) (place + 1) =
      (if kind = .countStar then 0 else 1) + argumentIndex rest place := by
  by_cases star : kind = .countStar
  · simp [argumentIndex, star]
  · simp [argumentIndex, star, Nat.add_comm]

theorem extract_kinds (expressions : Nat) (kinds : List Kind) (place : Nat) :
    (extractAggregateExpressions expressions (kinds.map Kind.aggregate))[place]? =
      (kinds[place]?).map fun kind => { boundAt kinds place kind with
        children := if kind = .countStar then []
          else [expressions + argumentIndex kinds place] } := by
  induction kinds generalizing expressions place with
  | nil => rfl
  | cons kind rest ih =>
      have split : extractAggregateExpressions expressions ((kind :: rest).map Kind.aggregate) =
          ⟨kind.name, if kind = .countStar then [] else [expressions], none,
            kind = .countDistinct⟩ :: extractAggregateExpressions
              (expressions + if kind = .countStar then 0 else 1) (rest.map Kind.aggregate) := by
        rw [List.map_cons, extractAggregateExpressions]
        by_cases star : kind = .countStar <;> simp [Kind.aggregate, star, List.range_succ_eq_map]
      rw [split]
      cases place with
      | zero => simp [boundAt, argumentIndex]
      | succ place =>
          rw [List.getElem?_cons_succ, List.getElem?_cons_succ, ih]
          simp only [boundAt, argumentIndex_succ, Nat.add_assoc]

theorem planned_getElem (kinds : List Kind) (place : Nat) :
    (planned kinds)[place]? = (kinds[place]?).map (boundAt kinds place) := by
  rw [planned, extract_kinds]
  simp only [Nat.zero_add]
  rfl

theorem planned_length (kinds : List Kind) : (planned kinds).length = kinds.length := by
  have same (place : Nat) : (planned kinds)[place]? = none ↔ kinds[place]? = none := by
    rw [planned_getElem, Option.map_eq_none_iff]
  have first := same kinds.length
  have second := same (planned kinds).length
  simp only [List.getElem?_eq_none_iff] at first second
  omega

theorem payloadIndex_planned (kinds : List Kind) (place : Nat) (inside : place ≤ kinds.length) :
    payloadIndex (planned kinds) place = argumentIndex kinds place := by
  induction place with
  | zero => simp [payloadIndex, argumentIndex]
  | succ place ih =>
      have before := ih (by omega)
      have here : (planned kinds)[place]? = some (boundAt kinds place kinds[place]) := by
        rw [planned_getElem, List.getElem?_eq_getElem (by omega), Option.map_some]
      rw [payloadIndex, List.take_add_one, here] at *
      rw [argumentIndex, List.take_add_one, List.getElem?_eq_getElem (by omega)]
      rw [argumentIndex] at before
      simp only [Option.toList_some, List.map_append, List.sum_append, List.filter_append,
        List.length_append, List.map_cons, List.map_nil, List.sum_cons, List.sum_nil]
      rw [← before]
      by_cases star : kinds[place] = .countStar <;> simp [boundAt, star]

theorem argumentIndex_le (kinds : List Kind) (place : Nat) : argumentIndex kinds place ≤ place := by
  have filtered := List.length_filter_le (· ≠ Kind.countStar) (kinds.take place)
  have taken := List.length_take_le place kinds
  rw [argumentIndex]
  omega

/-- If every DISTINCT aggregate stands at an index a DISTINCT aggregate refers to, it is its
own. -/
theorem distinct_in_place {kinds : List Kind} (referred : ∀ place : Nat,
    kinds[place]? = some .countDistinct → place ∈ distinctReferences (planned kinds)) :
    ∀ (left place : Nat), kinds.length - place ≤ left → kinds[place]? = some .countDistinct →
      argumentIndex kinds place = place := by
  intro left
  induction left with
  | zero =>
      intro place none here
      obtain ⟨inside, -⟩ := List.getElem?_eq_some_iff.mp here
      omega
  | succ left ih =>
      intro place bound here
      obtain ⟨aggregate, member, refers⟩ := List.mem_flatMap.mp (referred place here)
      obtain ⟨member, distinct⟩ := List.mem_filter.mp member
      obtain ⟨other, inside, same⟩ := List.getElem_of_mem member
      have at' : (planned kinds)[other]? = some aggregate := by
        rw [List.getElem?_eq_getElem inside, same]
      rw [planned_getElem] at at'
      obtain ⟨kind, there, rfl⟩ := Option.map_eq_some_iff.mp at'
      have kind' : kind = .countDistinct := by simpa [boundAt] using distinct
      subst kind'
      have index : place = argumentIndex kinds other := by simpa [boundAt] using refers
      have most := argumentIndex_le kinds other
      rcases Nat.lt_or_ge place other with later | same
      · have self := ih other (by omega) there
        omega
      · have equal : other = place := by omega
        rw [equal] at index
        exact index.symm

end Slots

section Inputs

variable {r : Relation} {kinds : List Kind} {types : List AggregationType} {slots : Slots}
  {place : Nat} {kind : Kind} {slot : Option Column} {first : Column} {rest : Slots}

def Kind.type : Kind → AggregationType
  | .countStar => .countStar
  | .count => .count
  | .countDistinct => .countDistinct
  | .sum | .sumNoOverflow => .sum
  | .average => .average
  | .min => .min
  | .max => .max
  | .first => .first

/-- An aggregate of a column without data is a count, a sum or FIRST. -/
def Kind.needsData : Kind → Bool
  | .average | .min | .max => true
  | _ => false

theorem aggregationType_kind {type : AggregationType}
    (run : aggregationType (boundAt kinds place kind) slot = .ok type) :
    type = kind.type ∧ (kind.needsData = true → ∀ c, slot = some c → c.entries ≠ none) := by
  cases slot with
  | none => cases kind <;> simp_all [aggregationType, boundAt, Kind.name, Kind.type, Kind.needsData]
  | some c =>
      by_cases null : c.entries = none <;> by_cases empty : c.columnLength = 0 <;> cases kind <;>
        simp_all [aggregationType, boundAt, Kind.name, Kind.type, Kind.needsData, plainType]

/-- What a slot holds in an input with rows. -/
def Holds (r : Relation) (kinds : List Kind) (place : Nat) (kind : Kind) (slot : Option Column) :
    Prop :=
  if kind = .countStar then slot = some (starColumn r.columns)
  else AggregateInputs.Reads r.columns (argumentIndex kinds place) slot

theorem collected_kind (here : kinds[place]? = some kind)
    (collected : Collected r.columns (planned kinds) (boundAt kinds place kind) place slot)
    (own : kind = .countDistinct → argumentIndex kinds place = place ∧
      place ∈ distinctReferences (planned kinds)) : Holds r kinds place kind slot := by
  obtain ⟨inside, -⟩ := List.getElem?_eq_some_iff.mp here
  rw [Collected] at collected
  rw [Holds]
  by_cases star : kind = .countStar
  · rw [if_pos (by simp [boundAt, star])] at collected
    rwa [if_pos star]
  · rw [if_neg (by simp [boundAt, star])] at collected
    rw [if_neg star]
    by_cases distinct : kind = .countDistinct
    · obtain ⟨self, referred⟩ := own distinct
      have source : sourceIndex (planned kinds) (boundAt kinds place kind) place = some place := by
        rw [sourceIndex, if_pos (by simp [boundAt, distinct]), if_pos referred]
      rw [source] at collected
      rwa [self]
    · have source : sourceIndex (planned kinds) (boundAt kinds place kind) place =
          some (argumentIndex kinds place) := by
        rw [sourceIndex, if_neg (by simp [boundAt, distinct]),
          payloadIndex_planned kinds place (by omega)]
      rwa [source] at collected

/-- The length of the first column is that of the first argument. -/
theorem firstRows_eq (run : aggregateInputs r.columns (planned kinds) = .ok (types, slots))
    (start : slots = some first :: rest) : first.columnLength = firstRows r kinds := by
  obtain ⟨collected, -⟩ := aggregateInputs_inv run
  obtain ⟨length, each⟩ := collect_inv collected
  cases kinds with
  | nil =>
      rw [start] at length
      cases length
  | cons kind others =>
      have bound : (planned (kind :: others))[0]? = some (boundAt (kind :: others) 0 kind) := by
        rw [planned_getElem]
        rfl
      have held := each 0 _ (some first) bound (by rw [start]; rfl)
      have referred : kind = .countDistinct →
          0 ∈ distinctReferences (planned (kind :: others)) := by
        intro distinct
        by_contra not
        rw [Collected, if_neg (by simp [boundAt, distinct])] at held
        have source : sourceIndex (planned (kind :: others)) (boundAt (kind :: others) 0 kind) 0 =
            none := by
          rw [sourceIndex, if_pos (by simp [boundAt, distinct]), if_neg not]
        rw [source] at held
        cases held
      have holds := collected_kind rfl held fun distinct => ⟨rfl, referred distinct⟩
      rw [Holds] at holds
      by_cases star : kind = .countStar
      · rw [if_pos star] at holds
        cases holds
        rw [star]
        rfl
      · rw [if_neg star] at holds
        obtain ⟨c, c', here, same, materialized⟩ := holds
        cases same
        have zero : r.columns[0]? = some c := here
        have rows : firstRows r (kind :: others) = c.shown.length := by
          cases kind <;> simp_all [firstRows]
        rw [rows, materialized.columnLength]

/-- In an input with rows every aggregate has its own column. -/
theorem slots_hold (run : aggregateInputs r.columns (planned kinds) = .ok (types, slots))
    (some' : firstRows r kinds ≠ 0) (here : kinds[place]? = some kind)
    (held : slots[place]? = some slot) : Holds r kinds place kind slot := by
  obtain ⟨collected, -, first, rest, start, -, whole⟩ := aggregateInputs_inv run
  obtain ⟨length, each⟩ := collect_inv collected
  rw [firstRows_eq run start] at whole
  have bound (place : Nat) (kind : Kind) (here : kinds[place]? = some kind) :
      (planned kinds)[place]? = some (boundAt kinds place kind) := by
    rw [planned_getElem, here]
    rfl
  have referred (place : Nat) (here : kinds[place]? = some .countDistinct) :
      place ∈ distinctReferences (planned kinds) := by
    obtain ⟨inside, -⟩ := List.getElem?_eq_some_iff.mp here
    have slot' := List.getElem?_eq_getElem (l := slots) (i := place)
      (by rw [length, planned_length]; exact inside)
    by_contra not
    have held' := each place _ _ (bound place _ here) slot'
    rw [Collected, if_neg (by simp [boundAt])] at held'
    have source : sourceIndex (planned kinds) (boundAt kinds place .countDistinct) place =
        none := by
      rw [sourceIndex, if_pos (by simp [boundAt]), if_neg not]
    rw [source] at held'
    exact whole some' (held' ▸ List.getElem_mem _)
  refine collected_kind here (each place _ slot (bound place kind here) held) fun distinct => ?_
  rw [distinct] at here
  exact ⟨distinct_in_place referred _ place (Nat.le_refl _) here, referred place here⟩

/-- The number of rows that the first column gives. -/
theorem firstRows_rowCount (some' : firstRows r kinds ≠ 0) : firstRows r kinds = r.rowCount := by
  cases kinds with
  | nil => exact absurd rfl some'
  | cons kind others =>
      have argument (c : Column) (here : r.columns[0]? = some c) (rows : c.shown.length ≠ 0) :
          c.shown.length = r.rowCount := by
        refine shown_count (List.mem_of_getElem? here) fun null => rows ?_
        rw [Column.shown, null]
        rfl
      by_cases star : kind = .countStar
      · subst star
        rw [firstRows] at *
        cases columns : r.columns with
        | nil => exact absurd columns r.some
        | cons c later =>
            have member : c ∈ r.columns := by rw [columns]; exact List.mem_cons_self
            simp only [columns, columnSize] at some' ⊢
            cases ids : c.rowIds with
            | some ids' =>
                simp only [ids] at some' ⊢
                have count : c.rowCount = ids'.length := by rw [Column.rowCount, ids]
                by_cases null : c.entries = none
                · rcases r.empty c member null with zero | same
                  · omega
                  · omega
                · rw [← count, r.even c member null]
            | none =>
                simp only [ids] at some' ⊢
                by_cases null : c.entries = none
                · simp [null] at some'
                · rw [if_neg null, ← r.even c member null, Column.rowCount, ids]
      · have rows : firstRows r (kind :: others) = (r.columns[0]?).elim 0 (·.shown.length) := by
          cases kind <;> simp_all [firstRows]
        rw [rows] at some' ⊢
        cases here : r.columns[0]? with
        | none => simp [here] at some'
        | some c => exact argument c here (by simpa [here] using some')

end Inputs

section Aggregates

variable {cudf : Cudf} {uninitialized : Bytes} {r : Relation} {c c' col col' : Column}
  {index : Nat} {kind : Kind} {value : Option Bytes} {bits : Bytes}

/-- A column of one value, which can be read. -/
structure One (col : Column) (bits : Bytes) : Prop where
  columnLength : col.columnLength = 1
  entries : col.entries = some [⟨bits, true⟩]
  readable : col.type ≠ .varchar

theorem hasValue_one (one : One col bits) : (getData col).HasValue value ↔ some bits = value := by
  constructor
  · rintro ⟨-, -, data⟩
    simpa [getData, one.entries] using data
  · intro same
    refine ⟨one.columnLength, one.readable, ?_⟩
    simpa [getData, one.entries] using same

theorem countColumn_one (n : Nat) : One (countColumn n) (countBytes n) :=
  ⟨rfl, rfl, nofun⟩

theorem scalarType_readable {type type' : GPUColumnType} (run : scalarType type = .ok type') :
    type' ≠ .varchar := by
  rintro rfl
  unfold scalarType at run
  split at run
  · split_ifs at run <;> cases run
  all_goals simp_all

theorem setFromCudfScalar_inv {scalar : Scalar} {isUnique : Bool}
    (run : setFromCudfScalar scalar isUnique = .ok col) :
    One col scalar.bits ∧ scalarType scalar.type = .ok col.type ∧ col.rowIds = none := by
  obtain ⟨type, stored, run⟩ := bind_ok_iff.mp run
  cases run
  exact ⟨⟨rfl, rfl, scalarType_readable stored⟩, stored, rfl⟩

/-- A reduction stores the bits of its scalar, which are the value if there are values. -/
theorem reduceColumn_inv {op : Reduction} {type : CudfColumn → GPUColumnType}
    (other : op ≠ .nunique) (direct : c.rowIds = none)
    (run : reduceColumn cudf op type c = .ok col) :
    ∃ bits, One col bits ∧ (present (c.shown.map Entry.value) ≠ [] →
      bits = cudf.aggregate op c.type (type ⟨c.type, c.shown.map Entry.value⟩)
        (present (c.shown.map Entry.value))) := by
  obtain ⟨view, viewed, run⟩ := bind_ok_iff.mp run
  obtain ⟨scalar, reduced, run⟩ := bind_ok_iff.mp run
  obtain ⟨type', values⟩ := convertToCudfColumn_inv direct viewed
  have same : view = ⟨c.type, c.shown.map Entry.value⟩ := by rw [← type', ← values]
  obtain ⟨one, -⟩ := setFromCudfScalar_inv run
  obtain ⟨-, -, exact'⟩ := cudf.reduced op view _ scalar other reduced
  subst same
  exact ⟨scalar.bits, one, exact'⟩

/-- A reduction is that of SQL exactly if there are values. -/
theorem reduced_iff (here : r.columns[index]? = some c)
    (plain : kind.type = .sum ∨ kind.needsData = true) {p : Column} (one : One col bits)
    (values : present (p.shown.map Entry.value) =
      (present (argumentValues r index)).map (aggregatedIn cudf kind c.type).2)
    (exact' : present (p.shown.map Entry.value) ≠ [] →
      bits = cudf.aggregate (reductionOf kind) (aggregatedIn cudf kind c.type).1
        (resultType cudf kind c.type r.rowCount) (present (p.shown.map Entry.value))) :
    (getData col).HasValue (sqlValue cudf kind (argumentType r index) (argumentValues r index)) ↔
      Determined r kind index := by
  have type : argumentType r index = c.type := by simp [argumentType, here]
  have length : (argumentValues r index).length = r.rowCount := by simp [argumentValues]
  have sql : sqlValue cudf kind c.type (argumentValues r index) =
      if present (argumentValues r index) = [] then none
      else some (cudf.aggregate (reductionOf kind) (aggregatedIn cudf kind c.type).1
        (resultType cudf kind c.type r.rowCount)
        ((present (argumentValues r index)).map (aggregatedIn cudf kind c.type).2)) := by
    rw [← length]
    cases kind <;> first | rfl | simp [Kind.type, Kind.needsData] at plain
  have determined : Determined r kind index ↔ present (argumentValues r index) ≠ [] := by
    cases kind <;> first | rfl | simp [Kind.type, Kind.needsData] at plain
  rw [hasValue_one one, type, sql, determined]
  by_cases none : present (argumentValues r index) = []
  · simp [none]
  · have some : present (p.shown.map Entry.value) ≠ [] := by
      rw [values]
      simpa using none
    rw [if_neg none, exact' some, values]
    simp [none]

theorem materialized_empty (materialized : Materialized c c') (null : c'.entries = none) :
    c'.columnLength = 0 ∧ c.shown = [] :=
  have none := materialized.null.mp null
  ⟨by rw [materialized.columnLength, none]; rfl, none⟩

theorem materialized_data (materialized : Materialized c c') (data : c'.entries ≠ none) :
    c.entries ≠ none := by
  intro null
  refine data (materialized.null.mpr ?_)
  rw [Column.shown, null]

/-- The column a sum is over. -/
theorem prepareSum_inv {kinds : List Kind} {place : Nat} {p : Column} (sum : kind.type = .sum)
    (direct : c'.rowIds = none) (data : c'.entries ≠ none)
    (prepared : prepareSum (boundAt kinds place kind) (some c') = some p) :
    p.entries ≠ none ∧ p.rowIds = none ∧ p.type = (aggregatedIn cudf kind c'.type).1 ∧
      p.shown.map Entry.value =
        (c'.shown.map Entry.value).map (·.map (aggregatedIn cudf kind c'.type).2) := by
  obtain ⟨es, here⟩ := Option.ne_none_iff_exists'.mp data
  rw [prepareSum, Option.map_some, Option.some.injEq] at prepared
  by_cases wide : kind = .sumNoOverflow ∧ c'.type = .int32
  · obtain ⟨rfl, type⟩ := wide
    rw [if_pos ⟨rfl, rfl, data, type⟩] at prepared
    subst prepared
    refine ⟨by simp [widened, here], direct, by simp [widened, aggregatedIn, type], ?_⟩
    simp only [widened, here, direct, aggregatedIn, type, Column.shown, Option.map_some,
      List.map_map, and_self, if_true, reduceCtorEq, false_and, if_false]
    refine List.map_congr_left fun e _ => ?_
    cases valid : e.valid <;> simp [widenEntry, Entry.value, valid]
  · have plain : aggregatedIn cudf kind c'.type = (c'.type, id) := by
      rw [aggregatedIn, if_neg, if_neg wide]
      rintro ⟨rfl, -⟩
      cases sum
    rw [if_neg] at prepared
    · subst prepared
      simp [plain, direct, data]
    · rintro ⟨-, name, -, type⟩
      refine wide ⟨?_, type⟩
      cases kind <;> simp_all [boundAt, Kind.name]

theorem sum_iff {kinds : List Kind} {place size : Nat} {p : Column} (sum : kind.type = .sum)
    (here : r.columns[index]? = some c) (materialized : Materialized c c')
    (prepared : prepareSum (boundAt kinds place kind) (some c') = some p)
    (run : aggregateColumn cudf uninitialized size .sum p = .ok col) :
    (getData col).HasValue (sqlValue cudf kind (argumentType r index) (argumentValues r index)) ↔
      Determined r kind index := by
  by_cases null : c'.entries = none
  · obtain ⟨empty, shown⟩ := materialized_empty materialized null
    have none : present (argumentValues r index) = [] := by
      rw [← present_shown here, shown]
      rfl
    rw [prepareSum, Option.map_some, if_neg (by simp [null])] at prepared
    cases prepared
    have zero : aggregateColumn cudf uninitialized size .sum c' = .ok (countColumn 0) := by
      simp [aggregateColumn, null, empty]
    rw [zero] at run
    cases run
    refine reduced_iff here (Or.inl sum) (p := c) (countColumn_one 0) ?_ fun some => ?_
    · rw [present_shown here, none]
      rfl
    · exact absurd (by rw [present_shown here, none]) some
  · have data := materialized_data materialized null
    obtain ⟨data', direct, type, values⟩ : p.entries ≠ none ∧ p.rowIds = none ∧
        p.type = (aggregatedIn cudf kind c'.type).1 ∧ p.shown.map Entry.value =
          (c'.shown.map Entry.value).map (·.map (aggregatedIn cudf kind c'.type).2) :=
      prepareSum_inv sum materialized.direct null prepared
    have reduce : reduceColumn cudf .sum
        (fun column => sumType column.type column.values.length) p = .ok col := by
      simpa [aggregateColumn, data'] using run
    obtain ⟨bits, one, exact'⟩ := reduceColumn_inv (by decide) direct reduce
    refine reduced_iff here (Or.inl sum) (p := p) one ?_ fun some => ?_
    · rw [values, present_map, materialized.shown, present_shown here, materialized.type]
    · have length : (p.shown.map Entry.value).length = r.rowCount := by
        rw [values, List.length_map, List.length_map, materialized.shown,
          shown_count (List.mem_of_getElem? here) data]
      have result : resultType cudf kind c.type r.rowCount =
          sumType (aggregatedIn cudf kind c.type).1 r.rowCount := by
        cases kind <;> first | rfl | cases sum
      have op : reductionOf kind = .sum := by cases kind <;> first | rfl | cases sum
      simp only [exact' some, type, materialized.type, length, result, op]

/-- The column an average is over. -/
theorem averageColumn_inv {p : Column} (direct : c'.rowIds = none)
    (run : averageColumn cudf c' = .ok p) :
    p.rowIds = none ∧ p.type = (aggregatedIn cudf .average c'.type).1 ∧
      p.shown.map Entry.value =
        (c'.shown.map Entry.value).map (·.map (aggregatedIn cudf .average c'.type).2) := by
  rw [averageColumn] at run
  by_cases casts : castsAverage c'.type = true
  · have plain : aggregatedIn cudf .average c'.type =
        (.float64, cudf.castValue c'.type .float64) := by
      rw [aggregatedIn, if_pos ⟨rfl, casts⟩]
    rw [if_pos casts] at run
    obtain ⟨view, viewed, run⟩ := bind_ok_iff.mp run
    obtain ⟨type, values⟩ := convertToCudfColumn_inv direct viewed
    have stored := setFromCudfColumn_inv run
    have double := setFromCudfColumn_type run
    refine ⟨stored.direct, ?_, ?_⟩
    · rw [plain]
      exact (Except.ok.inj double).symm
    · rw [stored.shown, plain, castColumn, type, values]
  · have plain : aggregatedIn cudf .average c'.type = (c'.type, id) := by
      rw [aggregatedIn, if_neg fun both => casts both.2, if_neg (by simp)]
    rw [if_neg casts] at run
    cases run
    simp [plain, direct]

theorem average_iff {size : Nat} (here : r.columns[index]? = some c)
    (materialized : Materialized c c') (data : c'.entries ≠ none)
    (run : aggregateColumn cudf uninitialized size .average c' = .ok col) :
    (getData col).HasValue
        (sqlValue cudf .average (argumentType r index) (argumentValues r index)) ↔
      Determined r .average index := by
  have both : (averageColumn cudf c' >>= reduceColumn cudf .mean CudfColumn.type) = .ok col := by
    simpa [aggregateColumn, data] using run
  obtain ⟨p, cast, reduce⟩ := bind_ok_iff.mp both
  obtain ⟨direct, type, values⟩ := averageColumn_inv materialized.direct cast
  obtain ⟨bits, one, exact'⟩ := reduceColumn_inv (by decide) direct reduce
  refine reduced_iff here (Or.inr rfl) (p := p) one ?_ fun some => ?_
  · rw [values, present_map, materialized.shown, present_shown here, materialized.type]
  · rw [exact' some, type, materialized.type]
    rfl

/-- The smallest or the largest value. -/
theorem extreme_iff {size : Nat} (extreme : kind = .min ∨ kind = .max)
    (here : r.columns[index]? = some c) (materialized : Materialized c c')
    (data : c'.entries ≠ none)
    (run : aggregateColumn cudf uninitialized size kind.type c' = .ok col) :
    (getData col).HasValue (sqlValue cudf kind (argumentType r index) (argumentValues r index)) ↔
      Determined r kind index := by
  have plain : aggregatedIn cudf kind c.type = (c.type, id) := by
    rcases extreme with rfl | rfl <;> simp [aggregatedIn]
  have result : resultType cudf kind c.type r.rowCount = c.type := by
    rcases extreme with rfl | rfl <;> simp [resultType, plain]
  have reduce : reduceColumn cudf (reductionOf kind) CudfColumn.type c' = .ok col := by
    rcases extreme with rfl | rfl <;>
      simpa [aggregateColumn, Kind.type, data, reductionOf] using run
  have other : reductionOf kind ≠ .nunique := by rcases extreme with rfl | rfl <;> decide
  obtain ⟨bits, one, exact'⟩ := reduceColumn_inv other materialized.direct reduce
  refine reduced_iff here (Or.inr (by rcases extreme with rfl | rfl <;> rfl)) (p := c') one ?_
    fun some => ?_
  · rw [materialized.shown, present_shown here, plain, List.map_id]
  · rw [exact' some, plain, result, materialized.type]

/-- COUNT gives the number of rows, unless the column has no data. -/
theorem count_iff {size : Nat} (here : r.columns[index]? = some c)
    (materialized : Materialized c c') (rows : size = r.rowCount) (some' : r.rowCount ≠ 0)
    (small : r.rowCount < 256 ^ 8)
    (run : aggregateColumn cudf uninitialized size .count c' = .ok col) :
    (getData col).HasValue
        (sqlValue cudf .count (argumentType r index) (argumentValues r index)) ↔
      Determined r .count index := by
  have length : (argumentValues r index).length = r.rowCount := by simp [argumentValues]
  have determined : Determined r .count index ↔
      c.entries = none ∨ none ∉ argumentValues r index := by simp [Determined, here]
  rw [determined]
  by_cases null : c'.entries = none
  · obtain ⟨empty, shown⟩ := materialized_empty materialized null
    have zero : aggregateColumn cudf uninitialized size .count c' = .ok (countColumn 0) := by
      simp [aggregateColumn, null, empty]
    rw [zero] at run
    cases run
    have none : c.entries = none := by
      by_contra data
      have count := shown_count (List.mem_of_getElem? here) data
      rw [shown] at count
      exact some' count.symm
    rw [hasValue_one (countColumn_one 0), sqlValue, argumentValues_null here none,
      present_replicate]
    simp [none]
  · have data := materialized_data materialized null
    have all : aggregateColumn cudf uninitialized size .count c' = .ok (countColumn size) := by
      simp [aggregateColumn, null]
    rw [all] at run
    cases run
    have most : (present (argumentValues r index)).length ≤ (argumentValues r index).length :=
      List.reduceOption_length_le _
    rw [hasValue_one (countColumn_one size), sqlValue, ← present_length_iff, Option.some_inj]
    constructor
    · intro same
      exact Or.inr ((countBytes_inj (by omega) (by omega) same).symm.trans (rows.trans length.symm))
    · rintro (none | same)
      · exact absurd none data
      · rw [same, length, rows]

theorem stored_one (stored : Stored [some bits] col) (readable : col.type ≠ .varchar) :
    One col bits := by
  obtain ⟨direct, shown, columnLength⟩ := stored
  refine ⟨columnLength, ?_, readable⟩
  cases data : col.entries with
  | none => simp [Column.shown, data] at shown
  | some es =>
      simp only [Column.shown, data, direct, List.map_eq_singleton_iff] at shown
      obtain ⟨⟨_, valid⟩, rfl, value⟩ := shown
      cases valid
      · cases value
      · cases value
        rfl

/-- The number of distinct values is an `INT64` in the end. -/
theorem distinct_value (here : r.columns[index]? = some c) (materialized : Materialized c c')
    {size : Nat} (run : aggregateColumn cudf uninitialized size .countDistinct c' = .ok col')
    (cast : castCount cudf .countDistinct col' = .ok col) :
    (getData col).HasValue
      (sqlValue cudf .countDistinct (argumentType r index) (argumentValues r index)) := by
  have type : argumentType r index = c.type := by simp [argumentType, here]
  rw [type, sqlValue]
  have reduce : reduceColumn cudf .nunique CudfColumn.type c' = .ok col' := by
    simpa [aggregateColumn] using run
  obtain ⟨view, viewed, reduce⟩ := bind_ok_iff.mp reduce
  obtain ⟨scalar, reduced, store⟩ := bind_ok_iff.mp reduce
  obtain ⟨type', values⟩ := convertToCudfColumn_inv materialized.direct viewed
  obtain ⟨one, stored, direct⟩ := setFromCudfScalar_inv store
  have count := cudf.counted view _ scalar reduced
  rw [type', values, materialized.type, materialized.shown, present_shown here] at count
  rcases count with ⟨wide, bits⟩ | ⟨narrow, bits⟩
  · rw [wide] at stored
    have same : col'.type = .int64 := (Except.ok.inj stored).symm
    rw [castCount, if_neg (by simp [same])] at cast
    cases cast
    rw [hasValue_one one, bits]
    rfl
  · rw [narrow] at stored
    have same : col'.type = .int32 := (Except.ok.inj stored).symm
    rw [castCount, if_pos (by simp [same])] at cast
    obtain ⟨view', viewed', cast⟩ := bind_ok_iff.mp cast
    obtain ⟨type'', values'⟩ := convertToCudfColumn_inv direct viewed'
    have shown : col'.shown = [⟨scalar.bits, true⟩] := by
      simp [Column.shown, one.entries, direct]
    have single : Stored [some (cudf.castValue .int32 .int64 scalar.bits)] col := by
      have stored' := setFromCudfColumn_inv cast
      rwa [castColumn, type'', same, values', shown] at stored'
    have long : col.type = .int64 := (Except.ok.inj (setFromCudfColumn_type cast)).symm
    rw [hasValue_one (stored_one single (by simp [long])), bits]
    rfl

theorem firstColumn_inv (run : firstColumn uninitialized c = .ok col) :
    copied c.type = true ∧
        One col ((c.entries.map fun es => (es.headD ⟨[], false⟩).bits).getD uninitialized) ∨
      c.type = .varchar ∧ c.entries ≠ none ∧ col.type = .varchar ∨
        copied c.type = false ∧ c.type ≠ .varchar ∧ col = c := by
  cases type : c.type
  case int64 | int32 | float32 | float64 | boolean =>
    simp only [firstColumn, type] at run
    cases run
    exact Or.inl ⟨rfl, rfl, rfl, nofun⟩
  case varchar =>
    simp only [firstColumn, type] at run
    cases data : c.entries with
    | none =>
        simp only [data] at run
        cases run
    | some es =>
        simp only [data] at run
        cases run
        exact Or.inr (Or.inl ⟨rfl, nofun, rfl⟩)
  all_goals
    simp only [firstColumn, type] at run
    cases run
    exact Or.inr (Or.inr ⟨rfl, nofun, rfl⟩)

/-- FIRST copies the bits of the first value. -/
theorem first_iff {size : Nat} (here : r.columns[index]? = some c)
    (materialized : Materialized c c') (some' : r.rowCount ≠ 0)
    (run : aggregateColumn cudf uninitialized size .first c' = .ok col) :
    (getData col).HasValue
        (sqlValue cudf .first (argumentType r index) (argumentValues r index)) ↔
      Determined r .first index := by
  have type : argumentType r index = c.type := by simp [argumentType, here]
  have first : firstColumn uninitialized c' = .ok col := by simpa [aggregateColumn] using run
  rw [sqlValue, Determined, type]
  cases data : c'.entries with
  | none =>
      obtain ⟨empty, shown⟩ := materialized_empty materialized data
      have none : c.entries = none := by
        by_contra data
        have count := shown_count (List.mem_of_getElem? here) data
        rw [shown] at count
        exact some' count.symm
      have value : (argumentValues r index).head?.join = Option.none := by
        rw [argumentValues_null here none, List.head?_replicate, if_neg some']
        rfl
      rw [value]
      refine iff_of_false ?_ fun determined => determined.1 rfl
      rcases firstColumn_inv first with ⟨-, one⟩ | ⟨-, data', -⟩ | ⟨-, -, same⟩
      · rw [hasValue_one one]
        nofun
      · exact absurd data data'
      · subst same
        rintro ⟨length, -⟩
        rw [getData, empty] at length
        cases length
  | some es =>
      have data' := materialized_data materialized (by simp [data])
      have shown : c.shown = es := by
        rw [← materialized.shown, Column.shown, data, materialized.direct]
      have count := shown_count (List.mem_of_getElem? here) data'
      rw [argumentValues_data here data', shown]
      rw [shown] at count
      cases es with
      | nil => exact absurd count.symm some'
      | cons e rest =>
          have value : (((e :: rest).map Entry.value).head?).join = e.value := rfl
          have valid : some e.bits = e.value ↔ e.value ≠ none := by
            rw [Entry.value]
            split <;> simp
          rw [value]
          rcases firstColumn_inv first with ⟨copies, one⟩ | ⟨string, -, string'⟩ |
            ⟨left, readable, same⟩
          · rw [data] at one
            rw [hasValue_one one, ← materialized.type, copies]
            simpa using valid
          · rw [← materialized.type, string]
            exact iff_of_false (fun holds => holds.2.1 string') (by simp [copied])
          · subst same
            rw [materialized.type] at left readable
            have columnLength : col.columnLength = r.rowCount := by
              rw [materialized.columnLength, shown, count]
            simp only [Output.HasValue, getData, data, columnLength, materialized.type, left,
              readable, ne_eq, not_false_eq_true, true_and, Bool.false_eq_true, false_or]
            simp [valid, and_comm]

/-- COUNT(*) gives the number of rows of the input. -/
theorem star_value {size : Nat} (rows : size = r.rowCount) (some' : columnSize r.columns ≠ 0)
    (run : aggregateColumn cudf uninitialized size .countStar (starColumn r.columns) = .ok col) :
    (getData col).HasValue
      (sqlValue cudf .countStar (argumentType r index) (argumentValues r index)) := by
  have all : aggregateColumn cudf uninitialized size .countStar (starColumn r.columns) =
      .ok (countColumn size) := by
    simp [aggregateColumn, starColumn, emptyColumn, some']
  rw [all] at run
  cases run
  rw [hasValue_one (countColumn_one size), sqlValue, argumentValues, List.length_map,
    List.length_range, rows]

theorem prepareSum_plain {kinds : List Kind} {place : Nat} (other : kind.type ≠ .sum) :
    prepareSum (boundAt kinds place kind) (some c) = some c := by
  rw [prepareSum, Option.map_some, if_neg]
  rintro ⟨-, name, -⟩
  refine other ?_
  cases kind <;> simp_all [boundAt, Kind.name, Kind.type]

theorem prepareSum_shape {aggregate : BoundAggregate} {p : Column}
    (prepared : prepareSum aggregate (some c) = some p) :
    p.columnLength = c.columnLength ∧ (p.entries = none ↔ c.entries = none) := by
  rw [prepareSum, Option.map_some, Option.some.injEq] at prepared
  subst prepared
  split <;> simp [widened]

theorem castCount_other {type : AggregationType} (other : type ≠ .countDistinct) :
    castCount cudf type c = .ok c := by
  rw [castCount, if_neg fun both => other both.1]

/-- An aggregate of an input with rows. -/
theorem aggregated_iff {kinds : List Kind} {place size : Nat} {type : AggregationType}
    {slot : Option Column} {p : Column} (some' : columnSize r.columns ≠ 0 ∧ r.rowCount ≠ 0)
    (rows : size = r.rowCount) (small : r.rowCount < 256 ^ 8)
    (holds : Holds r kinds place kind slot)
    (typed : aggregationType (boundAt kinds place kind) slot = .ok type)
    (prepared : prepareSum (boundAt kinds place kind) slot = some p)
    (run : aggregateColumn cudf uninitialized size type p = .ok col')
    (cast : castCount cudf type col' = .ok col) :
    (getData col).HasValue (expected cudf r kinds place kind) ↔
      Determined r kind (argumentIndex kinds place) := by
  obtain ⟨rfl, needs⟩ := aggregationType_kind typed
  rw [Holds] at holds
  rw [expected]
  by_cases star : kind = .countStar
  · subst star
    cases holds
    have other : Kind.countStar.type ≠ .countDistinct := by decide
    rw [prepareSum_plain (by decide)] at prepared
    cases prepared
    rw [castCount_other other] at cast
    cases cast
    exact iff_of_true (star_value rows some'.1 run) trivial
  · rw [if_neg star] at holds
    obtain ⟨c, c', here, rfl, materialized⟩ := holds
    by_cases distinct : kind = .countDistinct
    · subst distinct
      rw [prepareSum_plain (by decide)] at prepared
      cases prepared
      exact iff_of_true (distinct_value here materialized run cast) trivial
    · have other : kind.type ≠ .countDistinct := by cases kind <;> simp_all [Kind.type]
      rw [castCount_other other] at cast
      cases cast
      by_cases sum : kind.type = .sum
      · rw [sum] at run
        exact sum_iff sum here materialized prepared run
      · rw [prepareSum_plain sum] at prepared
        cases prepared
        have data (need : kind.needsData = true) := needs need _ rfl
        cases kind with
        | countStar => exact absurd rfl star
        | countDistinct => exact absurd rfl distinct
        | sum | sumNoOverflow => exact absurd rfl sum
        | count => exact count_iff here materialized rows some'.2 small run
        | average => exact average_iff here materialized (data rfl) run
        | min => exact extreme_iff (Or.inl rfl) here materialized (data rfl) run
        | max => exact extreme_iff (Or.inr rfl) here materialized (data rfl) run
        | first => exact first_iff here materialized some'.2 run

theorem distinctCount_le (same : Bytes → Bytes → Bool) (values : List Bytes) :
    distinctCount same values ≤ values.length := by
  induction values with
  | nil => exact Nat.le_refl _
  | cons bits rest ih =>
      rw [distinctCount]
      split <;> simp only [List.length_cons] <;> omega

theorem distinctCount_zero {same : Bytes → Bytes → Bool} {values : List Bytes} :
    distinctCount same values = 0 ↔ values = [] := by
  induction values with
  | nil => exact ⟨fun _ => rfl, fun _ => rfl⟩
  | cons bits rest ih =>
      rw [distinctCount]
      split
      case isTrue again =>
        obtain ⟨other, member, -⟩ := List.any_eq_true.mp again
        simp [ih, List.ne_nil_of_mem member]
      case isFalse => simp

/-- A count of zero is stored for every count. -/
theorem zero_iff {n : Nat} (small : n < 256 ^ 8) :
    (getData (countColumn 0)).HasValue (some (countBytes n)) ↔ n = 0 := by
  rw [hasValue_one (countColumn_one 0), Option.some_inj]
  constructor
  · exact fun same => (countBytes_inj (by omega) small same).symm
  · rintro rfl
    rfl

/-- An aggregate of an input without rows in the first column. -/
theorem empty_iff {kinds : List Kind} {place : Nat} {slot : Option Column}
    (small : r.rowCount < 256 ^ 8) (run : emptyAggregate kind.type slot = .ok col')
    (cast : castCount cudf kind.type col' = .ok col) :
    (getData col).HasValue (expected cudf r kinds place kind) ↔
      CountsNothing r kind (argumentIndex kinds place) := by
  have length (index : Nat) : (argumentValues r index).length = r.rowCount := by
    simp [argumentValues]
  have most (index : Nat) : (present (argumentValues r index)).length ≤ r.rowCount := by
    rw [← length index]
    exact List.reduceOption_length_le _
  unfold emptyAggregate at run
  split at run
  case isTrue count =>
    cases run
    have kept : castCount cudf kind.type (countColumn 0) = .ok (countColumn 0) := by
      rw [castCount, if_neg]
      rintro ⟨-, other⟩
      exact other rfl
    rw [kept] at cast
    cases cast
    cases kind with
    | countStar => rw [expected, sqlValue, length, zero_iff small, CountsNothing]
    | count =>
        have fits := most (argumentIndex kinds place)
        rw [expected, sqlValue, zero_iff (by omega), CountsNothing, List.length_eq_zero_iff]
    | countDistinct =>
        have fits := most (argumentIndex kinds place)
        have less := distinctCount_le (cudf.same (argumentType r (argumentIndex kinds place)))
          (present (argumentValues r (argumentIndex kinds place)))
        rw [expected, sqlValue, Cudf.distinct, zero_iff (by omega), CountsNothing,
          distinctCount_zero]
    | _ => simp [Kind.type] at count
  case isFalse other =>
    have none : ¬ CountsNothing r kind (argumentIndex kinds place) := by
      cases kind <;> first | exact id | simp [Kind.type] at other
    refine iff_of_false ?_ none
    cases slot with
    | none => cases run
    | some c =>
        cases run
        rw [castCount_other fun distinct => other (Or.inr (Or.inr distinct))] at cast
        cases cast
        rintro ⟨length, -⟩
        cases length

end Aggregates

section Results

variable {cudf : Cudf} {uninitialized : Bytes} {r : Relation} {kinds : List Kind}
  {columns : List (AggregationType × Option Column)} {reduced : List Column}

theorem columnSize_some (some' : firstRows r kinds ≠ 0) : columnSize r.columns ≠ 0 := by
  cases kinds with
  | nil => exact absurd rfl some'
  | cons kind others =>
      by_cases star : kind = .countStar
      · subst star
        exact some'
      · have rows : firstRows r (kind :: others) = (r.columns[0]?).elim 0 (·.shown.length) := by
          cases kind <;> simp_all [firstRows]
        rw [rows] at some'
        cases here : r.columns with
        | nil => simp [here] at some'
        | cons c later =>
            have shown : c.shown.length ≠ 0 := by simpa [here] using some'
            have data : c.entries ≠ none := by
              intro null
              rw [Column.shown, null] at shown
              exact shown rfl
            rw [shown_length data, Column.rowCount] at shown
            cases ids : c.rowIds with
            | none =>
                rw [ids] at shown
                simpa [columnSize, ids, data] using shown
            | some ids' =>
                rw [ids] at shown
                simpa [columnSize, ids] using shown

theorem cudfAggregate_inv (run : cudfAggregate cudf uninitialized columns = .ok reduced) :
    ∃ type first rest, columns = (type, some first) :: rest ∧
      reduced.length = columns.length ∧ ∀ (place : Nat) col x, reduced[place]? = some col →
        columns[place]? = some x →
          if first.columnLength = 0 then emptyAggregate x.1 x.2 = .ok col
          else ∃ p, x.2 = some p ∧
            aggregateColumn cudf uninitialized (inputSize columns) x.1 p = .ok col := by
  rcases columns with _ | ⟨⟨type, _ | first⟩, rest⟩
  · cases run
  · cases run
  · refine ⟨type, first, rest, rfl, ?_⟩
    simp only [cudfAggregate] at run
    split at run
    case isTrue empty =>
      refine ⟨(mapM_ok_iff.mp run).length_eq.symm, fun place col x here held => ?_⟩
      obtain ⟨x', held', made⟩ := mapM_getElem? run here
      rw [held] at held'
      cases held'
      rwa [if_pos empty]
    case isFalse some' =>
      refine ⟨(mapM_ok_iff.mp run).length_eq.symm, fun place col x here held => ?_⟩
      obtain ⟨⟨type', slot⟩, held', made⟩ := mapM_getElem? run here
      rw [held] at held'
      cases held'
      rw [if_neg some']
      cases slot with
      | none => cases made
      | some p => exact ⟨p, rfl, made⟩

/-- The first column with rows gives the size. -/
theorem inputSize_first {type : AggregationType} {first : Column}
    {rest : List (AggregationType × Option Column)} (counted : counts type (some first) = true) :
    inputSize ((type, some first) :: rest) = first.columnLength := by
  simp [inputSize, counted]

theorem counts_first {kind : Kind} {place : Nat} {type : AggregationType} {first p : Column}
    (holds : Holds r kinds place kind (some first))
    (typed : aggregationType (boundAt kinds place kind) (some first) = .ok type)
    (prepared : prepareSum (boundAt kinds place kind) (some first) = some p)
    (some' : first.columnLength ≠ 0) : counts type (some p) = true := by
  obtain ⟨length, null⟩ := prepareSum_shape prepared
  obtain ⟨rfl, -⟩ := aggregationType_kind typed
  rw [Holds] at holds
  by_cases star : kind = .countStar
  · subst star
    simp only [counts, Kind.type, Option.any_some, length]
    simp [Nat.pos_of_ne_zero some']
  · rw [if_neg star] at holds
    obtain ⟨c, c', -, same, materialized⟩ := holds
    cases same
    have data : p.entries ≠ none := by
      rw [ne_eq, null]
      exact fun none => some' (materialized_empty materialized none).1
    simp [counts, Option.isSome_iff_ne_none, data]

/-- What the results hold for an aggregate. -/
theorem results_place (fits : r.rowCount < 256 ^ 8) {out : List Output}
    (run : results cudf uninitialized r.columns (planned kinds) = .ok out) :
    out.length = kinds.length ∧ ∀ (place : Nat) kind, kinds[place]? = some kind →
      ∃ o, out[place]? = some o ∧ (o.HasValue (expected cudf r kinds place kind) ↔
        if firstRows r kinds = 0 then CountsNothing r kind (argumentIndex kinds place)
        else Determined r kind (argumentIndex kinds place)) := by
  obtain ⟨⟨types, slots⟩, inputs, run⟩ := bind_ok_iff.mp run
  obtain ⟨reduced, aggregated, run⟩ := bind_ok_iff.mp run
  obtain ⟨counted, cast, same⟩ := bind_ok_iff.mp run
  cases same
  obtain ⟨collected, typed, first, rest, start, -⟩ := aggregateInputs_inv inputs
  obtain ⟨type, p, others, columns, length, each⟩ := cudfAggregate_inv aggregated
  have slots' : slots.length = kinds.length := by rw [(collect_inv collected).1, planned_length]
  have types' : types.length = kinds.length := by
    rw [← (mapM_ok_iff.mp typed).length_eq, List.length_zip, planned_length, slots', Nat.min_self]
  have reduced' : reduced.length = kinds.length := by
    simp [length, types', slots', planned_length]
  have counted' : counted.length = kinds.length := by
    rw [← (mapM_ok_iff.mp cast).length_eq, List.length_zip, types', reduced', Nat.min_self]
  have steps (place : Nat) (kind : Kind) (here : kinds[place]? = some kind) :
      ∃ type slot col' col, slots[place]? = some slot ∧ counted[place]? = some col ∧
        aggregationType (boundAt kinds place kind) slot = .ok type ∧
          castCount cudf type col' = .ok col ∧ reduced[place]? = some col' ∧
            (types.zip (List.zipWith prepareSum (planned kinds) slots))[place]? =
              some (type, prepareSum (boundAt kinds place kind) slot) := by
    obtain ⟨inside, -⟩ := List.getElem?_eq_some_iff.mp here
    have last := List.getElem?_eq_getElem (l := counted) (i := place) (by omega)
    obtain ⟨⟨type, col'⟩, pair, made⟩ := mapM_getElem? cast last
    obtain ⟨typeHere, colHere⟩ := List.getElem?_zip_eq_some.mp pair
    obtain ⟨⟨aggregate, slot⟩, pair', made'⟩ := mapM_getElem? typed typeHere
    obtain ⟨aggregateHere, slotHere⟩ := List.getElem?_zip_eq_some.mp pair'
    rw [planned_getElem, here] at aggregateHere
    cases aggregateHere
    refine ⟨type, slot, col', _, slotHere, last, made', made, colHere, ?_⟩
    refine List.getElem?_zip_eq_some.mpr ⟨typeHere, ?_⟩
    rw [List.getElem?_zipWith, planned_getElem, here, slotHere]
    rfl
  have kind : ∃ kind, kinds[0]? = some kind := by
    have some' : 0 < kinds.length := by rw [← slots', start]; exact Nat.succ_pos _
    exact ⟨_, List.getElem?_eq_getElem some'⟩
  obtain ⟨kind, zero⟩ := kind
  obtain ⟨type', slot, -, -, slotHere, -, typedHere, -, -, columnHere⟩ := steps 0 kind zero
  rw [start] at slotHere
  cases slotHere
  rw [columns] at columnHere
  obtain ⟨same, prepared⟩ := Prod.mk.inj (Option.some.inj columnHere)
  have rows := firstRows_eq inputs start
  have shape := prepareSum_shape prepared.symm
  refine ⟨by simp [counted'], fun place kind' here => ?_⟩
  obtain ⟨type'', slot'', col', col, slotHere', last, typedHere', made, reducedHere, pair⟩ :=
    steps place kind' here
  refine ⟨getData col, by simp [last], ?_⟩
  have step := each place col' _ reducedHere pair
  rw [shape.1, rows] at step
  by_cases empty : firstRows r kinds = 0
  · rw [if_pos empty] at step ⊢
    obtain ⟨rfl, -⟩ := aggregationType_kind typedHere'
    exact empty_iff fits step made
  · rw [if_neg empty] at step ⊢
    obtain ⟨p', prepared', aggregated'⟩ := step
    have head := counts_first (slots_hold inputs empty zero (by rw [start]; rfl)) typedHere
      prepared.symm (by rw [rows]; exact empty)
    have size : inputSize (types.zip (List.zipWith prepareSum (planned kinds) slots)) =
        r.rowCount := by
      rw [columns, inputSize_first (by rw [same]; exact head), shape.1, rows,
        firstRows_rowCount empty]
    have some' : columnSize r.columns ≠ 0 ∧ r.rowCount ≠ 0 :=
      ⟨columnSize_some empty, by rwa [← firstRows_rowCount empty]⟩
    exact aggregated_iff some' size fits (slots_hold inputs empty here slotHere') typedHere'
      prepared' aggregated' made

/-- When the results are those of SQL. Of an input without rows the counts of nothing are right;
else the counts, unless they count a NULL, and what has a value. -/
theorem results_iff (fits : r.rowCount < 256 ^ 8) {out : List Output}
    (run : results cudf uninitialized r.columns (planned kinds) = .ok out) :
    Answers cudf r kinds out ↔ Exact r kinds := by
  obtain ⟨length, each⟩ := results_place fits run
  constructor
  · rintro ⟨-, answers⟩ place kind here
    obtain ⟨o, out', determined⟩ := each place kind here
    obtain ⟨o', out'', holds⟩ := answers place kind here
    rw [out'] at out''
    cases out''
    exact determined.mp holds
  · intro exact'
    refine ⟨length, fun place kind here => ?_⟩
    obtain ⟨o, out', determined⟩ := each place kind here
    exact ⟨o, out', determined.mpr (exact' place kind here)⟩

end Results

section Witness

/-- The sum of the integers, and nothing else, in the bytes of its type. -/
def integerSum : Cudf where
  reduce op column type :=
    if op = .sum then .ok ⟨type,
      encode (getColumnTypeSize type) ((present column.values).map signed).sum,
      present column.values ≠ []⟩
    else .error (.notImplemented "Unsupported reduce aggregation")
  castValue _ type bits := encode (getColumnTypeSize type) (signed bits)
  aggregate _ _ type values := encode (getColumnTypeSize type) (values.map signed).sum
  same _ a b := a = b
  reduced op column type scalar _ run := by
    split at run
    · cases run
      simp
    · cases run
  counted column type scalar run := by cases run

def twoIntegers : Relation :=
  relation [integers [1, 2], integers [1, 2]] 2 (List.cons_ne_nil _ _) (by decide) (by decide)
    (by decide)

/-- `count(*), count(a), sum(a)` over two rows. -/
theorem two_answers : Answers integerSum twoIntegers [.countStar, .count, .sum]
    [⟨.int64, 1, some [countBytes 2]⟩, ⟨.int64, 1, some [countBytes 2]⟩,
      ⟨.int64, 1, some [encode 8 3]⟩] := by
  have run : results integerSum [] twoIntegers.columns (planned [.countStar, .count, .sum]) =
      .ok [⟨.int64, 1, some [countBytes 2]⟩, ⟨.int64, 1, some [countBytes 2]⟩,
        ⟨.int64, 1, some [encode 8 3]⟩] := rfl
  refine (results_iff (by decide) run).mpr fun place kind here => ?_
  rw [if_neg (by decide)]
  match place with
  | 0 =>
      cases here
      trivial
  | 1 =>
      cases here
      exact Or.inr (by decide)
  | 2 =>
      cases here
      show present _ ≠ []
      decide
  | place + 3 => cases here

def oneNull : Relation :=
  relation [plainColumn .int32 [⟨[1, 0, 0, 0], true⟩, ⟨[0, 0, 0, 0], false⟩] 8 false] 2
    (List.cons_ne_nil _ _) (by decide) (by decide) (by decide)

/-- `count(a)` over a value and a NULL is two. -/
theorem null_is_counted :
    results integerSum [] oneNull.columns (planned [.count]) =
        .ok [⟨.int64, 1, some [countBytes 2]⟩] ∧
      expected integerSum oneNull [.count] 0 .count = some (countBytes 1) ∧
        ¬ Answers integerSum oneNull [.count] [⟨.int64, 1, some [countBytes 2]⟩] := by
  refine ⟨rfl, by decide, ?_⟩
  rintro ⟨-, each⟩
  obtain ⟨o, here, -, -, value⟩ := each 0 .count rfl
  cases here
  exact absurd value (by decide)

end Witness

end UngroupedAggregate
