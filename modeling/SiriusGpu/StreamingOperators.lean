import Mathlib
import SiriusGpu.PlanExecution
import SiriusGpu.StreamingLimit
import SiriusGpu.TupleMeaning

/-!
# Operators that stream

Filters, projections and limits, one above the other, as a pipeline runs them: each works on the
columns that the one below it has left, which may be behind row ids. Their answer in SQL is a
function of the tuples alone. Both are compared for a whole run, and for the plans that consist
of such operators between a scan and the result collector.
-/

namespace StreamingOperators

open GpuMemory (Exception Bytes)
open GpuColumns (GPUColumnType)
open Materialize (materializable)
open ResultCollector (LogicalType)
open GpuExpressions hiding isTrue
open FilterSelection (dispatchSelect dispatchSelect_within flag handleMaterializeRowIDs
  handleMaterializeRowIDs_rows noRows select)
open ProjectionExecution (bound Item executeItem executeExpression isReference skipped_empty
  sizeType_eq)
open StreamingLimit (LimitNode PhysicalStreamingLimit executeColumns Even CutAt)
open ColumnValues FallibleMaps EvaluatorMeaning TupleMeaning
open PhysicalPlan PipelineBuild PipelineSchedule PlanExecution PipelinePaths

section Model

/-- An operator with the data its class keeps. -/
inductive Stage
  | filter (expression : Expression)
  | projection (selectList : List (Expression × LogicalType))
  | streamingLimit (limit : PhysicalStreamingLimit)

variable (cudf : Cudf) (hidden : CudfColumn → Nat → Bytes)

/-- The entries of a column of cudf, with what it keeps under a NULL. -/
def entriesOf (out : CudfColumn) : List Entry :=
  out.values.mapIdx fun row v =>
    match v with
    | some bits => ⟨bits, true⟩
    | none => ⟨hidden out row, false⟩

theorem nothing_within (r : Relation) : ∀ row ∈ ([] : List Nat), row < r.rowCount :=
  fun _ none => absurd none List.not_mem_nil

/-- `GPUPhysicalFilter::Execute`. -/
def executeFilter (r : Relation) (filter : Expression) : Except Exception (List Column) :=
  if skipped r.columns filter then
    .ok (handleMaterializeRowIDs r [] (nothing_within r))
  else do
    let out ← execute cudf r.columns (setInputColumns r.columns).inputCount.toNat filter
    if whole : (entriesOf hidden out).length = r.rowCount then
      .ok (select r filter ⟨entriesOf hidden out, whole⟩).columns
    else .error .fault

/-- An item whose references are not bound to the columns is out of the model. -/
def executeSelected (r : Relation) (item : Expression × LogicalType) : Except Exception Column :=
  if inside : bound r.columns.length item.1 = true then
    executeItem cudf r ⟨item.1, item.2, inside⟩
  else .error .fault

/-- `Execute` of the three classes. -/
def executeStage (r : Relation) : Stage → Except Exception (List Column)
  | .filter expression => executeFilter cudf hidden r expression
  | .projection selectList => selectList.mapM (executeSelected cudf r)
  | .streamingLimit limit => limit.execute r.columns

/-- The rows of some columns, of which those that are entirely NULL may have none. -/
def countOf (columns : List Column) : Nat := (columns.map Column.rowCount).foldr max 0

/-- Columns with different numbers of rows are not a relation. -/
def relationOf (columns : List Column) : Option Relation :=
  if even : columns ≠ [] ∧ (∀ c ∈ columns, c.entries ≠ none → c.rowCount = countOf columns) ∧
      (∀ c ∈ columns, c.entries = none → c.rowCount = 0 ∨ c.rowCount = countOf columns) ∧
        ∀ c ∈ columns, c.Measured then
    some ⟨columns, countOf columns, even.1, even.2.1, even.2.2.1, even.2.2.2⟩
  else none

def runStage (r : Relation) (stage : Stage) : Except Exception Relation := do
  let columns ← executeStage cudf hidden r stage
  match relationOf columns with
  | some r' => .ok r'
  | none => .error .fault

/-- The operators of a pipeline, the lowest first. -/
def runStages (r : Relation) (stages : List Stage) : Except Exception Relation :=
  stages.foldlM (runStage cudf hidden) r

end Model

section Meaning

variable (sql : Sql)

/-- The values that have their tuples kept. -/
def keptTuples (ts : List Tuple) (values : List Value) : List Tuple :=
  ((ts.zip values).filter fun x => x.2.any isTrue).map Prod.fst

/-- cudf's type of a value that is passed on; a decimal has the greatest width of its size. -/
def stored (d : Datum) : Datum :=
  match storedType d.1 with
  | .ok type => (type, d.2)
  | .error _ => d

def scaleOf : GPUColumnType → Nat
  | .decimal _ scale => scale
  | _ => 0

/-- Whether a value has a type of this id and scale. -/
def hasType (type : GPUColumnType) (v : Value) : Bool :=
  v.all fun d => sameId d.1 type && scaleOf d.1 == scaleOf type

/-- A value in the type that the plan has for it. -/
def returned (returnType : LogicalType) (v : Value) : Outcome := do
  let type ← getCudfType returnType
  let planned := if hasType type v then some v else castValue sql type v
  outcomeOf (planned.map (Option.map stored))

def itemValue (t : Tuple) (item : Expression × LogicalType) : Outcome :=
  match item.1 with
  | .reference index => .ok t[index]?.join
  | e => do
    let v ← value sql t e
    returned sql item.2 v

/-- SQL has a value for the item, and what is not cast to the planned type has its scale. -/
structure Planned (t : Tuple) (item : Expression × LogicalType) : Prop where
  returns : ∃ v, itemValue sql t item = .ok v
  scale : ∀ d type, value sql t item.1 = .ok (some d) → getCudfType item.2 = .ok type →
    sameId d.1 type = true → scaleOf d.1 = scaleOf type

/-- What SQL has for an operator. -/
def answer (ts : List Tuple) : Stage → Except Exception (List Tuple)
  | .filter expression => do
    let values ← ts.mapM (value sql · expression)
    .ok (keptTuples ts values)
  | .projection selectList => ts.mapM fun t => selectList.mapM (itemValue sql t)
  | .streamingLimit limit =>
    match limit.limitVal, limit.offsetVal with
    | .constantValue n, .unset => .ok (ts.take n)
    | .constantValue n, .constantValue offset => .ok ((ts.drop offset).take n)
    | _, _ => .error .fault

def answers (ts : List Tuple) (stages : List Stage) : Except Exception (List Tuple) :=
  stages.foldlM (answer sql) ts

/-- cudf keeps zeros under NULLs. -/
def Cleared (hidden : CudfColumn → Nat → Bytes) : Prop :=
  ∀ out row, (hidden out row).any (· ≠ 0) = false

variable (hidden : CudfColumn → Nat → Bytes)

/-- What an operator needs of the tuples that reach it: expressions are exact and items have the
planned scale, the NULLs of a filter have no flags under them, and a limit has no offset and
leaves something. -/
def Sound (ts : List Tuple) : Stage → Prop
  | .filter expression => ∀ t ∈ ts, Exact sql t expression ∧
      (Cleared hidden ∨ value sql t expression ≠ .ok none)
  | .projection selectList => selectList ≠ [] ∧ ∀ t ∈ ts, ∀ item ∈ selectList,
      isReference item.1 = false → Exact sql t item.1 ∧ Planned sql t item
  | .streamingLimit limit => limit.limitVal ≠ .constantValue 0 ∧
      (limit.offsetVal = .unset ∨ limit.offsetVal = .constantValue 0)

/-- Each operator has what it needs of the answer below it. -/
def AllSound : List Tuple → List Stage → Prop
  | _, [] => True
  | ts, stage :: rest => Sound sql hidden ts stage ∧
      ∀ ts', answer sql ts stage = .ok ts' → AllSound ts' rest

/-- Every column has data, or there are no rows. -/
def Solid (r : Relation) : Prop := r.rowCount = 0 ∨ Data r.columns

end Meaning

section Relations

variable {columns : List Column} {count : Nat}

theorem countOf_even (even : Even columns count) : countOf columns = count := by
  have some := even.some
  have counts := even.count
  clear even
  rw [countOf]
  induction columns with
  | nil => exact absurd rfl some
  | cons c rest ih =>
    rw [List.map_cons, List.foldr_cons, counts c List.mem_cons_self]
    by_cases last : rest = []
    · rw [last]
      exact Nat.max_zero count
    · rw [ih last fun c' member => counts c' (List.mem_cons_of_mem c member)]
      exact Nat.max_self count

theorem relationOf_even (even : Even columns count) :
    ∃ r, relationOf columns = some r ∧ r.columns = columns ∧ r.rowCount = count := by
  have same := countOf_even even
  have counts : ∀ c ∈ columns, c.rowCount = countOf columns := by
    rw [same]
    exact even.count
  refine ⟨_, dif_pos ⟨even.some, fun c member _ => counts c member,
    fun c member _ => .inr (counts c member), even.measured⟩, rfl, same⟩

/-- A row with the types of its columns. -/
def typed (types : List GPUColumnType) (row : Row) : Tuple :=
  List.zipWith (fun type v => v.map (type, ·)) types row

theorem tuplesOf_rowsOf : tuplesOf columns count =
    (rowsOf columns count).map (typed (columns.map Column.type)) := by
  rw [tuplesOf, rowsOf, List.map_map]
  refine List.map_congr_left fun row _ => ?_
  simp only [Function.comp_apply, typed, List.zipWith_map, List.zipWith_self, tupleAt, datumAt]

theorem tuples_eq {r : Relation} (same : r.columns = columns) (rows : r.rowCount = count) :
    tuples r = tuplesOf columns count := by
  rw [tuples, same, rows]

end Relations

section Inputs

variable {r : Relation} {columns : List Column} {count : Nat}

/-- Columns that all have the same rows are counted, and none is found empty. -/
theorem countColumns_full (positive : 0 < sizeType count)
    (each : ∀ c ∈ columns, c.rowCount = count) (inputs : Inputs) :
    countColumns inputs columns = ⟨if columns = [] then inputs.inputCount else sizeType count,
      inputs.hasNullInputColumn⟩ := by
  induction columns generalizing inputs with
  | nil => rfl
  | cons c rest ih =>
    have here := each c List.mem_cons_self
    rw [countColumns, here, if_pos positive,
      ih (fun c' member => each c' (List.mem_cons_of_mem c member))]
    simp

theorem setInputColumns_data (data : Data r.columns) (some : r.rowCount ≠ 0)
    (small : r.rowCount ≤ int32Max) : setInputColumns r.columns = ⟨r.rowCount, false⟩ := by
  have positive : 0 < sizeType r.rowCount := by
    rw [sizeType_eq small]
    omega
  rw [setInputColumns, if_neg r.some, countColumns_full positive
    (fun c member => r.even c member (data c member)), if_neg r.some, sizeType_eq small]

theorem skipped_data (data : Data r.columns) (some : r.rowCount ≠ 0)
    (small : r.rowCount ≤ int32Max) (expr : Expression) : skipped r.columns expr = false := by
  simp [skipped, setInputColumns_data data some small, some]

theorem inputCount_data (data : Data r.columns) (some : r.rowCount ≠ 0)
    (small : r.rowCount ≤ int32Max) :
    (setInputColumns r.columns).inputCount.toNat = r.rowCount := by
  rw [setInputColumns_data data some small]
  rfl

end Inputs

section Filters

variable {sql : Sql} {cudf : Cudf} {hidden : CudfColumn → Nat → Bytes} {r : Relation}
  {filter : Expression} {out : CudfColumn} {columns : List Column}

theorem entriesOf_values (out : CudfColumn) :
    (entriesOf hidden out).map Entry.value = out.values := by
  refine List.ext_getElem (by simp [entriesOf]) fun row _ inside => ?_
  simp only [entriesOf, List.getElem_map, List.getElem_mapIdx]
  cases out.values[row] <;> rfl

/-- A row kept by a filter is in the kept tuples. -/
theorem keptTuples_map {α : Type} (rows : List α) (f : α → Tuple) (v : α → Value) :
    keptTuples (rows.map f) (rows.map v) = (rows.filter fun row => (v row).any isTrue).map f := by
  rw [keptTuples, List.zip_map']
  induction rows with
  | nil => rfl
  | cons row rest ih =>
    by_cases kept : (v row).any isTrue = true
    · simp [kept, ih]
    · simp [kept, ih]

theorem measured_same {c c' : Column} (type : c'.type = c.type) (entries : c'.entries = c.entries)
    (numBytes : c'.numBytes = c.numBytes) (measured : c.Measured) : c'.Measured := by
  rwa [Column.Measured, type, entries, numBytes]

theorem measured_empty (type : GPUColumnType) : (emptyColumn type).Measured := by
  intro string
  change type = .varchar at string
  simp [emptyColumn, string, bytesOf]

/-- What is kept of each column. -/
theorem kept_columns {rowIds : List Nat} (within : ∀ row ∈ rowIds, row < r.rowCount) :
    (handleMaterializeRowIDs r rowIds within).map Column.type = r.columns.map Column.type ∧
      (∀ c ∈ handleMaterializeRowIDs r rowIds within, c.Measured) ∧
        (rowIds ≠ [] → Data r.columns → Data (handleMaterializeRowIDs r rowIds within)) := by
  rw [handleMaterializeRowIDs]
  by_cases none : rowIds.length = 0
  · rw [if_pos none]
    refine ⟨by simp [noRows, emptyColumn], ?_, fun some => absurd none (by simpa using some)⟩
    intro c member
    obtain ⟨old, -, rfl⟩ := List.mem_map.mp member
    exact measured_same rfl rfl rfl (measured_empty old.type)
  · rw [if_neg none]
    refine ⟨?_, ?_, fun _ data => ?_⟩
    · rw [List.map_map]
      exact List.attach_map_val (f := Column.type)
    · intro c member
      obtain ⟨old, -, rfl⟩ := List.mem_map.mp member
      exact measured_same rfl rfl rfl (r.measured old.1 old.2)
    · intro c member
      obtain ⟨old, -, rfl⟩ := List.mem_map.mp member
      exact data old.1 old.2

/-- The rows of a relation that some row ids select are one again. -/
theorem kept_relation {rowIds : List Nat} (within : ∀ row ∈ rowIds, row < r.rowCount)
    (solid : Solid r) : ∃ r', relationOf (handleMaterializeRowIDs r rowIds within) = some r' ∧
      Solid r' ∧ r'.rowCount = rowIds.length ∧
        tuples r' = rowIds.map (tupleAt r.columns) := by
  obtain ⟨counts, rows⟩ := handleMaterializeRowIDs_rows within
  obtain ⟨types, measured, data⟩ := kept_columns within
  have some : handleMaterializeRowIDs r rowIds within ≠ [] := by
    intro none
    rw [none, List.map_nil, eq_comm, List.map_eq_nil_iff] at types
    exact r.some types
  obtain ⟨r', made, same, count⟩ := relationOf_even ⟨some, counts, measured⟩
  refine ⟨r', made, ?_, count, ?_⟩
  · by_cases none : rowIds = []
    · exact .inl (by rw [count, none]; rfl)
    · rcases solid with zero | whole
      · obtain ⟨row, rest, rfl⟩ := List.exists_cons_of_ne_nil none
        have := within row List.mem_cons_self
        omega
      · exact .inr (by rw [same]; exact data none whole)
  · rw [tuples_eq same count, tuplesOf_rowsOf, rows, types, List.map_map]
    refine List.map_congr_left fun row _ => ?_
    simp only [Function.comp_apply, typed, List.zipWith_map, List.zipWith_self, tupleAt, datumAt]

/-- In a relation with data an exact expression has one value for each row. -/
theorem executed_length (even : LengthPreserving cudf) (data : Data r.columns) {e : Expression}
    (ran : execute cudf r.columns r.rowCount e = .ok out) {row : Nat}
    (exact : Exact sql (tupleAt r.columns row) e) : out.values.length = r.rowCount := by
  have bounded : bound r.columns.length e = true := by
    rw [← length_tupleAt r.columns row]
    exact exact.inside
  have full := hasNullLeaf_data data e bounded
  have length := execute_sized even (counted_relation r) e (.inr full) out ran
  simpa [full] using length

/-- In a relation with data an exact expression has its value in every row. -/
theorem value_executed (documented : Documented sql cudf) (even : LengthPreserving cudf)
    (data : Data r.columns) {e : Expression}
    (ran : execute cudf r.columns r.rowCount e = .ok out) {row : Nat} (inside : row < r.rowCount)
    (exact : Exact sql (tupleAt r.columns row) e) : ∃ v, valueAt out row = some v ∧
      value sql (tupleAt r.columns row) e = .ok v := by
  have inside' : row < out.values.length := by
    rw [executed_length even data ran exact]
    exact inside
  refine ⟨out.values[row].map (out.type, ·), by simp [valueAt, inside'], ?_⟩
  rw [value_tupleAt]
  exact execute_exact documented even (counted_relation r) inside (exact.keeps_row data) ran
    (by simp [valueAt, inside'])

/-- What a stage leaves of a relation is one again, with the answer of SQL. -/
def Answered (sql : Sql) (r : Relation) (stage : Stage) (columns : List Column) : Prop :=
  ∃ r', relationOf columns = some r' ∧ Solid r' ∧ r'.rowCount ≤ r.rowCount ∧
    answer sql (tuples r) stage = .ok (tuples r')

/-- Without rows the filter is skipped. -/
theorem executeFilter_empty (none : r.rowCount = 0) (solid : Solid r)
    (run : executeFilter cudf hidden r filter = .ok columns) :
    Answered sql r (.filter filter) columns := by
  rw [executeFilter, if_pos (skipped_empty none)] at run
  cases run
  obtain ⟨r', made, solid', count, rows⟩ := kept_relation (nothing_within r) solid
  refine ⟨r', made, solid', by rw [count]; exact Nat.zero_le _, ?_⟩
  have empty : tuples r = [] := List.eq_nil_of_length_eq_zero (by rw [length_tuples, none])
  rw [rows, empty]
  rfl

/-- Where the result is NULL, what the bitmap holds does not select the row. -/
theorem entriesOf_clear (known : ∀ row < out.values.length,
    Cleared hidden ∨ valueAt out row ≠ some none) :
    ∀ e ∈ entriesOf hidden out, e.valid = false → flag e = false := by
  intro e member null
  obtain ⟨row, inside, rfl⟩ := List.getElem_of_mem member
  have inside' : row < out.values.length := by simpa [entriesOf] using inside
  simp only [entriesOf, List.getElem_mapIdx] at null ⊢
  cases here : out.values[row] with
  | some bits =>
    rw [here] at null
    cases null
  | none =>
    rcases known row inside' with cleared | some
    · exact cleared out row
    · simp [valueAt, inside', here] at some

theorem executeFilter_answer (documented : Documented sql cudf) (even : LengthPreserving cudf)
    (small : r.rowCount ≤ int32Max) (solid : Solid r)
    (sound : Sound sql hidden (tuples r) (.filter filter))
    (run : executeFilter cudf hidden r filter = .ok columns) :
    Answered sql r (.filter filter) columns := by
  by_cases none : r.rowCount = 0
  · exact executeFilter_empty none solid run
  have data : Data r.columns := solid.resolve_left none
  have executed := skipped_data data none small filter
  rw [executeFilter, if_neg (by simp [executed]), inputCount_data data none small] at run
  obtain ⟨out, ran, run⟩ := bind_ok_iff.mp run
  split at run
  case isFalse => cases run
  case isTrue whole =>
  cases run
  have length : out.values.length = r.rowCount := by simpa [entriesOf] using whole
  have each {row : Nat} (inside : row < r.rowCount) :=
    sound (tupleAt r.columns row) (mem_tuples.mpr ⟨row, inside, rfl⟩)
  have known {row : Nat} (inside : row < r.rowCount) :=
    value_executed documented even data ran inside (each inside).1
  have answered : ∀ row ∈ List.range r.rowCount,
      value sql (tupleAt r.columns row) filter = .ok (valueAt out row).join := by
    intro row member
    obtain ⟨v, there, meant⟩ := known (List.mem_range.mp member)
    rw [meant, there]
    rfl
  have clear : ∀ e ∈ entriesOf hidden out, e.valid = false → flag e = false := by
    refine entriesOf_clear fun row inside => ?_
    rw [length] at inside
    refine (each inside).2.imp_right fun some null => some ?_
    rw [answered row (List.mem_range.mpr inside), null]
    rfl
  have kept := (@select_right sql cudf r filter ⟨entriesOf hidden out, whole⟩ true out documented
    even ran (entriesOf_values out) clear
    fun row inside => (each inside).1.keeps_row data).2 rfl executed
  rw [select, if_neg (by simp [executed])] at kept ⊢
  have selected : dispatchSelect (entriesOf hidden out) =
      (List.range r.rowCount).filter fun row => (valueAt out row).join.any isTrue := by
    refine kept.trans (List.filter_congr fun row member => ?_)
    rw [holdsAt, ← value_tupleAt, answered row member]
  obtain ⟨r', made, solid', count, rows⟩ := kept_relation
    (dispatchSelect_within ⟨entriesOf hidden out, whole⟩) solid
  refine ⟨r', made, solid', ?_, ?_⟩
  · rw [count, selected]
    exact (List.length_filter_le _ _).trans List.length_range.le
  · rw [rows, selected, ← keptTuples_map]
    refine bind_ok_iff.mpr ⟨_, mapM_ok_iff.mpr ?_, rfl⟩
    rw [List.forall₂_map_right_iff, tuples, tuplesOf, List.forall₂_map_left_iff]
    exact List.forall₂_same.mpr answered

end Filters

section Projections

variable {sql : Sql} {cudf : Cudf} {hidden : CudfColumn → Nat → Bytes} {r : Relation}
  {column out : CudfColumn} {columns : List Column} {c : Column} {returnType : LogicalType}
  {item : Expression × LogicalType} {row : Nat} {v : Value}

theorem setFromCudfColumn_value (run : setFromCudfColumn column false = .ok c)
    (here : valueAt column row = some v) : datumAt c row = v.map stored := by
  have stays := setFromCudfColumn_inv run
  have type := setFromCudfColumn_type run
  obtain ⟨bits, there, rfl⟩ := Option.map_eq_some_iff.mp here
  have shown : (c.shown[row]?).map Entry.value = some bits := by
    rw [← List.getElem?_map, stays.shown, there]
  obtain ⟨e, here', rfl⟩ := Option.map_eq_some_iff.mp shown
  rw [datumAt, Column.cell, here', Option.bind_some]
  cases e.value with
  | none => rfl
  | some bits => simp [stored, type]

theorem setFromCudfColumn_kept (run : setFromCudfColumn column false = .ok c) :
    c.Measured ∧ (column.values ≠ [] → c.entries ≠ none) := by
  obtain ⟨type, -, run⟩ := bind_ok_iff.mp run
  by_cases none : column.values = []
  · simp only [none, List.map_nil, if_true] at run
    cases run
    exact ⟨measured_empty type, fun some => absurd none some⟩
  · simp only [List.map_eq_nil_iff, none, if_false] at run
    cases run
    exact ⟨fun _ => rfl, fun _ => Option.some_ne_none _⟩

/-- What the planned type makes of a value. -/
theorem returned_cases {type : GPUColumnType} {w : Value}
    (typed : getCudfType returnType = .ok type)
    (made : returned sql returnType v = .ok w) : hasType type v = true ∧ w = v.map stored ∨
      hasType type v = false ∧ ∃ u, castValue sql type v = some u ∧ w = u.map stored := by
  rw [returned, typed] at made
  obtain ⟨u, kept, rfl⟩ := Option.map_eq_some_iff.mp (outcomeOf_ok_iff.mp made)
  cases has : hasType type v with
  | true =>
    rw [has, if_pos rfl] at kept
    cases kept
    exact .inl ⟨rfl, rfl⟩
  | false =>
    rw [has, if_neg Bool.false_ne_true] at kept
    exact .inr ⟨rfl, u, kept, rfl⟩

/-- An expression that is executed has the values of cudf, in the type the plan has for it. -/
theorem executeExpression_values (documented : Documented sql cudf)
    (even : LengthPreserving cudf) {e : Expression} (executed : skipped r.columns e = false)
    (run : executeExpression cudf r e returnType = .ok c) : ∃ out,
      execute cudf r.columns (setInputColumns r.columns).inputCount.toNat e = .ok out ∧
        c.Measured ∧ (out.values ≠ [] → c.entries ≠ none) ∧
          c.rowCount = out.values.length ∧ ∀ row v w, valueAt out row = some v →
            returned sql returnType v = .ok w →
              (∀ d ∈ v, ∀ type, getCudfType returnType = .ok type → sameId d.1 type = true →
                scaleOf d.1 = scaleOf type) → datumAt c row = w := by
  obtain ⟨type, -, run⟩ := bind_ok_iff.mp run
  simp only [executed, Bool.false_eq_true, if_false] at run
  obtain ⟨out, ran, run⟩ := bind_ok_iff.mp run
  obtain ⟨target, cudfType, run⟩ := bind_ok_iff.mp run
  refine ⟨out, ran, ?_⟩
  by_cases same : sameId out.type target = true
  · simp only [same, if_true] at run
    obtain ⟨measured, data⟩ := setFromCudfColumn_kept run
    refine ⟨measured, data, setFromCudfColumn_rowCount run, fun row v w here planned scale => ?_⟩
    rw [setFromCudfColumn_value run here]
    obtain ⟨bits, -, rfl⟩ := Option.map_eq_some_iff.mp here
    have has : hasType target (bits.map (out.type, ·)) = true := by
      cases bits with
      | none => rfl
      | some bits => simp [hasType, same, scale (out.type, bits) rfl target cudfType same]
    rcases returned_cases cudfType planned with ⟨-, kept⟩ | ⟨other, -⟩
    · exact kept.symm
    · rw [has] at other
      cases other
  · simp only [same, Bool.false_eq_true, if_false] at run
    obtain ⟨converted, cast, run⟩ := bind_ok_iff.mp run
    have length := even _ _ _ cast out List.mem_cons_self
    obtain ⟨measured, data⟩ := setFromCudfColumn_kept run
    refine ⟨measured, fun some => data fun none => some ?_, ?_, fun row v w here planned _ => ?_⟩
    · rw [← List.length_eq_zero_iff, length, none, List.length_nil]
    · rw [setFromCudfColumn_rowCount run, length]
    · have inside : row < converted.values.length := by
        obtain ⟨bits, there, -⟩ := Option.map_eq_some_iff.mp here
        rw [← length]
        exact (List.getElem?_eq_some_iff.mp there).1
      have there : valueAt converted row =
          some (converted.values[row].map (converted.type, ·)) := by
        simp [valueAt, inside]
      obtain ⟨x, here', made⟩ := documented.run₁ (by trivial) cast there
      rw [here] at here'
      cases here'
      rw [setFromCudfColumn_value run there]
      obtain ⟨bits, -, rfl⟩ := Option.map_eq_some_iff.mp here
      rcases returned_cases cudfType planned with ⟨has, kept⟩ | ⟨-, u, cast, kept⟩
      · cases bits with
        | none =>
          rw [kept, made none rfl]
          rfl
        | some bits => simp [hasType, same] at has
      · rw [kept, made u cast]

/-- A column of a projection: the rows of the input, and the values of its item. -/
structure Selected (sql : Sql) (r : Relation) (item : Expression × LogicalType) (c : Column) :
    Prop where
  rowCount : c.rowCount = r.rowCount
  measured : c.Measured
  data : r.rowCount ≠ 0 → c.entries ≠ none
  values : ∀ row < r.rowCount,
    itemValue sql (tupleAt r.columns row) item = .ok (datumAt c row)

theorem executeReference_selected (solid : Solid r) {index : Nat} {type : LogicalType}
    (here : r.columns[index]? = some c) : Selected sql r (.reference index, type) c := by
  have member := List.mem_of_getElem? here
  constructor
  · by_cases null : c.entries = none
    · rcases solid with zero | data
      · rcases r.empty c member null with none | same
        · rw [none, zero]
        · exact same
      · exact absurd null (data c member)
    · exact r.even c member null
  · exact r.measured c member
  · exact fun some => solid.resolve_left some c member
  · intro row _
    change Except.ok (tupleAt r.columns row)[index]?.join = _
    rw [tupleAt, List.getElem?_map, here]
    rfl

theorem executeExpression_selected (documented : Documented sql cudf)
    (even : LengthPreserving cudf) (small : r.rowCount ≤ int32Max) (solid : Solid r)
    {e : Expression} (other : isReference e = false)
    (exact : ∀ t ∈ tuples r, Exact sql t e ∧ Planned sql t (e, returnType))
    (run : executeExpression cudf r e returnType = .ok c) : Selected sql r (e, returnType) c := by
  by_cases none : r.rowCount = 0
  · have skip : skipped r.columns e = true := skipped_empty none
    obtain ⟨type, -, run⟩ := bind_ok_iff.mp run
    simp only [skip, if_true] at run
    cases run
    exact ⟨none.symm, measured_empty type, fun some => absurd none some,
      fun row inside => absurd inside (by omega)⟩
  · have data := solid.resolve_left none
    obtain ⟨out, ran, measured, filled, rows, values⟩ :=
      executeExpression_values documented even (skipped_data data none small e) run
    rw [inputCount_data data none small] at ran
    have known {row : Nat} (inside : row < r.rowCount) := value_executed documented even data ran
      inside (exact _ (mem_tuples.mpr ⟨row, inside, rfl⟩)).1
    have length := executed_length even data ran
      (exact _ (mem_tuples.mpr ⟨0, Nat.pos_of_ne_zero none, rfl⟩)).1
    refine ⟨rows.trans length, measured, fun some => filled ?_, fun row inside => ?_⟩
    · intro empty
      rw [empty] at length
      exact some length.symm
    · obtain ⟨v, here, meant⟩ := known inside
      have planned := (exact _ (mem_tuples.mpr ⟨row, inside, rfl⟩)).2
      obtain ⟨w, whole⟩ := planned.returns
      have typed : returned sql returnType v = .ok w := by
        rw [itemValue] at whole
        split at whole
        case h_1 index same =>
          cases same
          cases other
        case h_2 =>
          obtain ⟨v', meant', typed⟩ := bind_ok_iff.mp whole
          cases meant.symm.trans meant'
          exact typed
      rw [whole, values row v w here typed]
      rintro d rfl type
      exact planned.scale d type meant

theorem executeSelected_selected (documented : Documented sql cudf) (even : LengthPreserving cudf)
    (small : r.rowCount ≤ int32Max) (solid : Solid r)
    (exact : ∀ t ∈ tuples r, isReference item.1 = false → Exact sql t item.1 ∧ Planned sql t item)
    (run : executeSelected cudf r item = .ok c) : Selected sql r item c := by
  obtain ⟨e, returnType⟩ := item
  rw [executeSelected] at run
  split at run
  case isFalse => cases run
  case isTrue inside =>
  cases e with
  | reference index =>
    simp only [executeItem] at run
    cases here : r.columns[index]? with
    | none => simp [here] at run
    | some c' =>
      simp only [here] at run
      cases run
      exact executeReference_selected solid here
  | _ =>
    exact executeExpression_selected documented even small solid rfl
      (fun t member => exact t member rfl) run

theorem executeProjection_answer (documented : Documented sql cudf) (even : LengthPreserving cudf)
    (small : r.rowCount ≤ int32Max) (solid : Solid r) {items : List (Expression × LogicalType)}
    (sound : Sound sql hidden (tuples r) (.projection items))
    (run : items.mapM (executeSelected cudf r) = .ok columns) :
    Answered sql r (.projection items) columns := by
  obtain ⟨some, exact⟩ := sound
  have all : List.Forall₂ (Selected sql r) items columns := by
    refine ((List.forall₂_and_left items columns).mpr ⟨?_, mapM_ok_iff.mp run⟩).imp
      fun item c both => executeSelected_selected documented even small solid both.1 both.2
    exact fun item member t here other => exact t here item member other
  have each {c : Column} (member : c ∈ columns) : ∃ item, Selected sql r item c := by
    obtain ⟨item, -, selected⟩ := exists_of_forall₂ all.flip member
    exact ⟨item, selected⟩
  have filled : columns ≠ [] := by
    rintro rfl
    exact some (List.forall₂_nil_right_iff.mp all)
  obtain ⟨r', made, same, count⟩ := @relationOf_even columns r.rowCount
    ⟨filled, fun c member => (each member).choose_spec.rowCount,
      fun c member => (each member).choose_spec.measured⟩
  refine ⟨r', made, ?_, count.le, ?_⟩
  · by_cases none : r.rowCount = 0
    · exact .inl (count.trans none)
    · refine .inr fun c member => ?_
      rw [same] at member
      exact (each member).choose_spec.data none
  · rw [tuples_eq same count, answer, mapM_ok_iff, tuples, tuplesOf, tuplesOf,
      List.forall₂_map_left_iff, List.forall₂_map_right_iff, List.forall₂_same]
    intro row inside
    rw [mapM_ok_iff, tupleAt.eq_def columns, List.forall₂_map_right_iff]
    exact all.imp fun item c selected => selected.values row (List.mem_range.mp inside)

end Projections

section Limits

variable {sql : Sql} {hidden : CudfColumn → Nat → Bytes} {r : Relation} {columns : List Column}
  {limit : PhysicalStreamingLimit}

theorem executeLimit_answer (solid : Solid r)
    (sound : Sound sql hidden (tuples r) (.streamingLimit limit))
    (run : limit.execute r.columns = .ok columns) :
    Answered sql r (.streamingLimit limit) columns := by
  obtain ⟨limitVal, offsetVal⟩ := limit
  obtain ⟨some, offset⟩ := sound
  cases limitVal with
  | constantValue n =>
    have some : n ≠ 0 := fun zero => some (by rw [zero])
    have types := StreamingLimit.executeColumns_able run
    have rows : ∀ c ∈ r.columns, c.shown.length = r.rowCount := by
      intro c member
      by_cases null : c.entries = none
      · rcases solid with zero | data
        · simp [Column.shown, null, zero]
        · exact absurd null (data c member)
      · exact shown_count member null
    obtain ⟨outs, ran, cut⟩ := @StreamingLimit.executeColumns_uniform n
      (min n r.rowCount) r.columns types r.measured fun c member => by rw [rows c member]
    cases ran.symm.trans run
    have even : Even columns (min n r.rowCount) := by
      refine (StreamingLimit.even_cutAt cut).mpr fun zero c member _ e inside => ?_
      have := rows c member
      have := List.length_pos_of_mem inside
      omega
    obtain ⟨r', made, same, count⟩ := relationOf_even even
    refine ⟨r', made, ?_, by rw [count]; exact Nat.min_le_right _ _, ?_⟩
    · by_cases none : min n r.rowCount = 0
      · exact .inl (count.trans none)
      · refine .inr fun out member null => ?_
        rw [same] at member
        obtain ⟨c, inside, cutAt⟩ := exists_of_forall₂ cut.flip member
        have length := congrArg List.length cutAt.shown
        rw [List.length_take, rows c inside] at length
        simp only [Column.shown, null, List.length_nil] at length
        omega
    · have types' : columns.map Column.type = r.columns.map Column.type := by
        rw [← List.forall₂_eq_eq_eq, List.forall₂_map_left_iff, List.forall₂_map_right_iff]
        exact cut.flip.imp fun _ _ cutAt => cutAt.type
      have left : tuples r' = (tuples r).take n := by
        rw [tuples_eq same count, tuplesOf_rowsOf, types',
          StreamingLimit.rowsOf_cutAt cut (Nat.min_le_right _ _), ← rows_length,
          ← List.take_eq_take_min, tuples, tuplesOf_rowsOf, List.map_take]
        rfl
      rw [left, answer]
      rcases offset with rfl | rfl <;> rfl
  | _ => cases run

end Limits

section Runs

variable {sql : Sql} {cudf : Cudf} {hidden : CudfColumn → Nat → Bytes} {r r' : Relation}
  {stage : Stage} {stages : List Stage} {columns : List Column}

theorem runStages_snoc : runStages cudf hidden r (stages ++ [stage]) =
    runStages cudf hidden r stages >>= (runStage cudf hidden · stage) := by
  simp [runStages]

/-- An operator that returns leaves a relation, with the answer of SQL. -/
theorem executeStage_answer (documented : Documented sql cudf) (even : LengthPreserving cudf)
    (small : r.rowCount ≤ int32Max) (solid : Solid r) (sound : Sound sql hidden (tuples r) stage)
    (run : executeStage cudf hidden r stage = .ok columns) :
    ∃ r', runStage cudf hidden r stage = .ok r' ∧ r'.columns = columns ∧ Solid r' ∧
      r'.rowCount ≤ r.rowCount ∧ answer sql (tuples r) stage = .ok (tuples r') := by
  have step : Answered sql r stage columns := by
    cases stage with
    | filter expression => exact executeFilter_answer documented even small solid sound run
    | projection selectList => exact executeProjection_answer documented even small solid sound run
    | streamingLimit limit => exact executeLimit_answer solid sound run
  obtain ⟨r', made, rest⟩ := step
  refine ⟨r', bind_ok_iff.mpr ⟨columns, run, by rw [made]⟩, ?_, rest⟩
  rw [relationOf] at made
  split at made
  · cases made
    rfl
  · cases made

theorem runStage_answer (documented : Documented sql cudf) (even : LengthPreserving cudf)
    (small : r.rowCount ≤ int32Max) (solid : Solid r) (sound : Sound sql hidden (tuples r) stage)
    (run : runStage cudf hidden r stage = .ok r') : Solid r' ∧ r'.rowCount ≤ r.rowCount ∧
      answer sql (tuples r) stage = .ok (tuples r') := by
  obtain ⟨columns, executed, -⟩ := bind_ok_iff.mp run
  obtain ⟨r'', ran, -, rest⟩ := executeStage_answer documented even small solid sound executed
  cases run.symm.trans ran
  exact rest

/-- A run of operators has the answer of SQL. -/
theorem runStages_answers (documented : Documented sql cudf) (even : LengthPreserving cudf)
    (small : r.rowCount ≤ int32Max) (solid : Solid r)
    (sound : AllSound sql hidden (tuples r) stages)
    (run : runStages cudf hidden r stages = .ok r') :
    answers sql (tuples r) stages = .ok (tuples r') := by
  induction stages generalizing r with
  | nil =>
    cases run
    rfl
  | cons stage rest ih =>
    obtain ⟨next, first, run⟩ := bind_ok_iff.mp run
    obtain ⟨solid', fewer, answered⟩ := runStage_answer documented even small solid sound.1 first
    refine bind_ok_iff.mpr ⟨tuples next, answered, ?_⟩
    exact ih (fewer.trans small) solid' (sound.2 _ answered) run

end Runs

section Plans

def Stage.unaryType : Stage → UnaryType
  | .filter _ => .filter
  | .projection _ => .projection
  | .streamingLimit _ => .streamingLimit

theorem Stage.unaryType_streams (stage : Stage) : stage.unaryType.isSink = false := by
  cases stage <;> rfl

variable (cudf : Cudf) (hidden : CudfColumn → Nat → Bytes) (table : OpId → Relation)
  (stages : OpId → Stage)

/-- The methods of scans, of operators that stream, and of the result collector, which keeps
the relations it is given. -/
def methods : Methods Relation (List Relation) where
  initial _ := []
  getData op _ :=
    match op.type with
    | .scan _ => some (table op.id)
    | _ => none
  execute op r s :=
    match op.type with
    | .unary _ => (runStage cudf hidden r (stages op.id)).toOption.map (·, s)
    | _ => none
  sink _ r s := some (s ++ [r])

/-- Operators above a scan, the lowest first. -/
def streamed (scan : OpId) (ops : List OpId) : Plan :=
  ops.foldl (fun p op => .unary op (stages op).unaryType p) (.scan scan .tableScan)

variable {cudf hidden table stages} {scan collector op : OpId} {ops : List OpId}

theorem streamed_snoc : streamed stages scan (ops ++ [op]) =
    .unary op (stages op).unaryType (streamed stages scan ops) := by
  simp [streamed]

theorem streamed_objects :
    (streamed stages scan ops).objects.map Operator.id = ops.reverse ++ [scan] := by
  induction ops using List.reverseRecOn with
  | nil => rfl
  | append_singleton ops op ih =>
    rw [streamed_snoc, Plan.objects, List.map_cons, ih, List.reverse_append]
    rfl

theorem streamed_simple : (streamed stages scan ops).registeredCteScans = [] ∧
    (streamed stages scan ops).Scoped [] [] ∧ cteTables (streamed stages scan ops) = [] ∧
      delimSources (streamed stages scan ops) = [] := by
  induction ops using List.reverseRecOn with
  | nil => exact ⟨rfl, trivial, rfl, rfl⟩
  | append_singleton ops op ih =>
    rw [streamed_snoc]
    exact ih

theorem pass_stage {r : Relation} {s : List Relation} :
    PlanExecution.pass (methods cudf hidden table stages)
      ⟨op, .unary (stages op).unaryType⟩ [r] s =
        (runStage cudf hidden r (stages op)).toOption.map fun r' => ([r'], s) := by
  cases ran : runStage cudf hidden r (stages op) <;>
    simp [PlanExecution.pass, executeAll, methods, ran, passesStored, Except.toOption]

/-- What such a plan passes on is what a run of its operators leaves. -/
theorem flow_streamed (shared : Shared Relation) :
    flow (methods cudf hidden table stages) (streamed stages scan ops) shared =
      (runStages cudf hidden (table scan) (ops.map stages)).toOption.map ([·]) := by
  induction ops using List.reverseRecOn with
  | nil => rfl
  | append_singleton ops op ih =>
    rw [streamed_snoc, flow, ih, (stages op).unaryType_streams, List.map_append,
      List.map_singleton, runStages_snoc]
    cases runStages cudf hidden (table scan) (ops.map stages) with
    | error e => rfl
    | ok r =>
      simp only [Except.toOption, Option.map_some, Option.bind_eq_bind, Option.bind_some,
        Bool.false_eq_true, if_false, pass_stage]
      cases ran : runStage cudf hidden r (stages op) <;>
        simp [bind, Except.bind, ran]

/-- Whatever the schedule of such a plan, executing it leaves in the result collector the
relation that has the tuples of SQL's answer. -/
theorem streamed_answer {sql : Sql} (documented : Documented sql cudf)
    (even : LengthPreserving cudf) (distinct : (collector :: scan :: ops).Nodup)
    (small : (table scan).rowCount ≤ int32Max) (solid : Solid (table scan))
    (sound : AllSound sql hidden (tuples (table scan)) (ops.map stages)) :
    (∃ fuel scheduled, initializeInternal
        (.resultCollector collector (streamed stages scan ops)) fuel = .ok (some scheduled)) ∧
      ∀ fuel scheduled cells, initializeInternal
          (.resultCollector collector (streamed stages scan ops)) fuel = .ok (some scheduled) →
        executeSchedule (methods cudf hidden table stages) [] scheduled = some cells →
          ∃ r, cells ⟨collector, .resultCollector⟩ = [r] ∧
            answers sql (tuples (table scan)) (ops.map stages) = .ok (tuples r) := by
  obtain ⟨registered, inScope, tables, sources⟩ :=
    @streamed_simple stages scan ops
  have wf : (Plan.resultCollector collector (streamed stages scan ops)).WellFormed := by
    constructor
    · rw [Plan.objects, List.map_cons, streamed_objects]
      have perm : (collector :: scan :: ops).Perm (collector :: (ops.reverse ++ [scan])) :=
        ((List.reverse_perm ops).symm.cons scan |>.trans
          (List.perm_append_singleton scan ops.reverse).symm).cons collector
      exact perm.nodup_iff.mp distinct
    · rw [Plan.registeredCteScans, registered]
      exact List.nodup_nil
  obtain ⟨returns, executes⟩ := executeSchedule_collected (methods cudf hidden table stages) wf
    inScope (by rw [sources]; exact List.nodup_nil)
  refine ⟨returns, fun fuel scheduled cells initialized executed => ?_⟩
  have collects := executes fuel scheduled initialized
  rw [tables, executed, collected, flow_streamed] at collects
  cases run : runStages cudf hidden (table scan) (ops.map stages) with
  | error e =>
    rw [run] at collects
    cases collects
  | ok r =>
    rw [run] at collects
    exact ⟨r, Option.some.inj collects,
      runStages_answers documented even small solid sound run⟩

end Plans

section Witness

/-- Zeros under every NULL. -/
def zeros : CudfColumn → Nat → Bytes := fun _ _ => [0]

def five : Constant := ⟨.integer, some [5, 0, 0, 0]⟩

/-- The numbers in a range, each with whether it is above five, of which the first is kept. -/
def rangeStages : OpId → Stage
  | 2 => .filter inRange
  | 3 => .projection [(.reference 0, .integer),
      (.comparison .greaterThan (.reference 0) (.constant five), .boolean)]
  | _ => .streamingLimit ⟨.constantValue 1, .unset⟩

theorem rangeStages_sound :
    AllSound numbers zeros (tuples integerRelation) ([2, 3, 4].map rangeStages) := by
  have valued (bits : Bytes) : constantValue ⟨.integer, some bits⟩ ≠ none := by
    intro none
    cases none
  have cleared : Cleared zeros := fun _ _ => rfl
  refine ⟨fun t member => ⟨⟨?_, ?_⟩, .inl cleared⟩, fun ts' answered => ?_⟩
  · obtain ⟨row, -, rfl⟩ := mem_tuples.mp member
    rw [length_tupleAt]
    decide
  · refine ⟨le_refl 2, ⟨⟨trivial, valued _⟩, ⟨trivial, valued _⟩, trivial⟩,
      fun _ values known => ?_⟩
    obtain ⟨row, inside, rfl⟩ := mem_tuples.mp member
    change row < 3 at inside
    rw [ThreeValued.Clear]
    interval_cases row <;> cases known <;> decide
  · refine ⟨⟨List.cons_ne_nil _ _, fun t member item inside other => ?_⟩, fun _ _ => ?_⟩
    · rcases List.mem_cons.mp inside with rfl | inside
      · cases other
      · cases List.mem_singleton.mp inside
        cases answered
        cases List.mem_singleton.mp member
        refine ⟨⟨rfl, trivial, valued _⟩, ⟨_, rfl⟩, fun d type meant typed _ => ?_⟩
        cases meant
        cases typed
        rfl
    · exact ⟨⟨by decide, .inl rfl⟩, fun _ _ => trivial⟩

theorem range_answered :
    (∃ fuel scheduled, initializeInternal
        (.resultCollector 0 (streamed rangeStages 1 [2, 3, 4])) fuel = .ok (some scheduled)) ∧
      ∀ fuel scheduled cells, initializeInternal
          (.resultCollector 0 (streamed rangeStages 1 [2, 3, 4])) fuel = .ok (some scheduled) →
        executeSchedule (methods (rowwise numbers) zeros (fun _ => integerRelation) rangeStages) []
            scheduled = some cells →
          ∃ r, cells ⟨0, .resultCollector⟩ = [r] ∧ answers numbers (tuples integerRelation)
            ([2, 3, 4].map rangeStages) = .ok (tuples r) :=
  streamed_answer (rowwise_documented numbers) (rowwise_even numbers) (by decide) (by decide)
    (.inr fun c member => by
      cases List.mem_singleton.mp member
      exact Option.some_ne_none _) rangeStages_sound

/-- Of NULL, 7 and 3 the run leaves 7. -/
example : (runStages (rowwise numbers) zeros integerRelation
    ([2, 3, 4].map rangeStages)).toOption.map tuples =
      some [[some (.int32, [7, 0, 0, 0]), some (truth true)]] := rfl

end Witness

end StreamingOperators
