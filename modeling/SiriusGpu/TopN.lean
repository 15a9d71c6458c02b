import Mathlib
import SiriusGpu.ColumnFormat
import SiriusGpu.CudfOrderBy
import SiriusGpu.StringTopN

/-!
# TOP N

`GPUPhysicalTopN`: the sink sorts its input, by the custom sort of strings if the relation is one
column of strings ordered by it, and `GetData` hands the rows of the window on. The limit is
given to the custom sort without the offset.
-/

namespace TopN

open GpuMemory (Exception Bytes)
open GpuColumns (GPUColumnType getColumnTypeSize)
open GpuExpressions (CudfColumn Stored convertToCudfColumn convertToCudfColumn_inv entryOf
  entryOf_value int32Max setFromCudfColumn setFromCudfColumn_type storedType)
open ColumnValues CudfOrderBy FallibleMaps LexicographicOrder
open StringTopN (Cub Filled Settled customStringTopN layOut lessChars)

section Model

structure GPUPhysicalTopN where
  orders : List BoundOrderByNode
  limit : Nat
  offset : Nat

def partially : Exception :=
  .notImplemented "TopN with partially NULL values is not supported"

/-- `CustomStringTopN` on columns. It reads no mask, and its result has none. -/
def customColumn (cub : Cub) (key projected : Column) (order : OrderByType) (numResults : Nat) :
    Except Exception Column := do
  let result ← customStringTopN cub (layOut (key.shown.map (·.bits)))
    (layOut (projected.shown.map (·.bits))) order numResults
  .ok (plainColumn .varchar (result.column.strings.map fun s => ⟨s, true⟩) result.numBytes false)

/-- A column of the output, with the offsets of its strings. -/
structure OutputColumn where
  column : Column
  offset : List Nat

variable (cub : Cub) (sortedOrder : List SortKey → List Nat) (op : GPUPhysicalTopN)

/-- `Sink`; all columns are projected, and there is no earlier result. -/
def sinkInput (columns : List Column) : Except Exception (List (Option Column)) :=
  sink sortedOrder (customColumn cub) partially op.orders (List.range columns.length) op.limit
    columns (columns.map fun _ => none)

/-- A column of `GetData`. The bytes behind the window are not subtracted from the byte count. -/
def windowColumn (c : Column) : Except Exception OutputColumn :=
  if op.offset ≥ c.columnLength then .ok ⟨emptyColumn c.type, []⟩
  else match c.entries with
    | none => .error .fault
    | some es =>
      let limitConst := min op.limit (c.columnLength - op.offset)
      let shown := (es.drop op.offset).take limitConst
      if c.type = .varchar then
        let outputColOffset := (ColumnFormat.offsets 0 (es.map (·.bits))).drop op.offset
        let bytesSkipped := outputColOffset.headD 0
        .ok ⟨plainColumn c.type shown (c.numBytes - bytesSkipped) false,
          (outputColOffset.take (limitConst + 1)).map (· - bytesSkipped)⟩
      else .ok ⟨plainColumn c.type shown (limitConst * getColumnTypeSize c.type) false, []⟩

/-- `GetData`; with limit 0 the columns of the output are not set. -/
def getData (sortResult : List (Option Column)) : Except Exception (List (Option OutputColumn)) :=
  if op.limit = 0 then .ok (sortResult.map fun _ => none)
  else sortResult.mapM fun c =>
    match c with
    | none => .error (.internal "Attempted to dereference shared_ptr that is NULL!")
    | some c => do
      let out ← windowColumn op c
      .ok (some out)

/-- The sink of a relation, and the output. -/
def topN (columns : List Column) : Except Exception (List (Option OutputColumn)) := do
  let sortResult ← sinkInput cub sortedOrder op columns
  getData op sortResult

end Model

section Meaning

variable (values : ValueOrder) (op : GPUPhysicalTopN) (r : Relation)

def types : List GPUColumnType := r.columns.map (·.type)

/-- The column has some values, their bytes are counted, and the offsets of strings start at 0. -/
structure Window (values : List (Option Bytes)) (out : OutputColumn) : Prop where
  stored : Stored values out.column
  numBytes : out.column.numBytes = bytesOf out.column.type (values.map entryOf)
  offset : out.column.type = .varchar → values ≠ [] →
    out.offset = ColumnFormat.offsets 0 (values.map (·.getD []))

def windowOf {α : Type} (rows : List α) : List α := (rows.drop op.offset).take op.limit

/-- The output is the window of the rows in the order of the plan. -/
def Windowed (out : List (Option OutputColumn)) : Prop :=
  ∃ rows, rows.Perm r.rows ∧
    (rows.Pairwise fun a b => (planOrder values (types r) op.orders a b).isLE = true) ∧
    List.Forall₂ (fun p c => ∃ o, c = some o ∧ Window ((windowOf op rows).map (valueAt · p)) o)
      (List.range r.columns.length) out

/-- The outcome is the window, or an exception is raised; a fault is neither. -/
def Delivered : Except Exception (List (Option OutputColumn)) → Prop
  | .ok out => Windowed values op r out
  | .error .fault => False
  | .error _ => True

/-- The bytes of the strings of a column. -/
def bitsOf (c : Column) : List Bytes := c.shown.map (·.bits)

/-- One column of strings, ordered by it. -/
def Custom : Prop :=
  op.orders.length = 1 ∧ r.columns.length = 1 ∧ ∀ c ∈ r.columns, c.type = .varchar

/-- For the sort of cudf: the first key has data, the placement of NULLs is immaterial, and the
rows that may be behind the window have no bytes in their strings. -/
structure General : Prop where
  several : ¬ Custom op r
  keyed : KeyHasRows op.orders r.columns
  placed : ∀ a ∈ r.rows, ∀ b ∈ r.rows, ¬ Misplaced values (types r) op.orders a b
  last : ∀ a ∈ r.rows, op.offset + op.limit <
      r.rows.countP (fun b => (planOrder values (types r) op.orders b a).isLE) →
    ∀ p, (types r)[p]? = some .varchar → (valueAt a p).getD [] = []

/-- For the custom sort: the window begins with the first row, no string is NULL, and the custom
sort is right. -/
structure Lettered : Prop where
  single : Custom op r
  start : op.offset = 0
  valid : ∀ a ∈ r.rows, (valueAt a 0).isSome = true
  settled : ∀ node ∈ op.orders,
    Settled (r.rows.map fun a => (valueAt a 0).getD []) node.type op.limit

/-- The window is behind all rows, and the custom sort finds a group that fills the limit. -/
structure Behind : Prop where
  short : r.rowCount ≤ op.offset
  filled : Custom op r → ∀ c ∈ r.columns, Filled (bitsOf c) op.limit

/-- There is a limit, the columns are materialized, and the window is behind all rows or the sort is
right. -/
structure Supported : Prop where
  some : 0 < op.limit
  gathered : ∀ c ∈ r.columns, c.Gathered
  cases : Behind op r ∨ General values op r ∨ Lettered op r

/-- Strings are compared by their bytes. -/
def Bytewise : Prop :=
  ∀ a b, values.compare .varchar a b = .lt ↔ lessChars a b = true

end Meaning

section Columns

variable {op : GPUPhysicalTopN} {values : List (Option Bytes)} {c : Column}

/-- A column as a sort leaves it: what is NULL has no bytes, and the others are counted. -/
structure Plain (values : List (Option Bytes)) (c : Column) : Prop where
  direct : c.rowIds = none
  entries : c.entries = none ∧ values = [] ∨ c.entries = some (values.map entryOf)
  columnLength : c.columnLength = values.length
  numBytes : c.numBytes = bytesOf c.type (values.map entryOf)

theorem entryOf_bits (v : Option Bytes) : (entryOf v).bits = v.getD [] := by
  cases v <;> rfl

theorem Plain.shown (plain : Plain values c) : c.shown.map Entry.value = values := by
  have direct := plain.direct
  obtain ⟨none, empty⟩ | some := plain.entries
  · rw [Column.shown, none, empty]
    rfl
  · simp only [Column.shown, some, direct, List.map_map, Function.comp_def, entryOf_value,
      List.map_id']

/-- The values of a column are what it stores. -/
theorem Plain.values_eq {values' : List (Option Bytes)} (plain : Plain values c)
    (stored : Stored values' c) : values = values' := by
  rw [← plain.shown, stored.shown]

theorem plain_withoutRowIds (plain : Plain values c) : Plain values (withoutRowIds c) :=
  ⟨rfl, plain.entries, plain.columnLength, plain.numBytes⟩

theorem place_drop (pieces : List Bytes) {offset count i : Nat} (inside : i ≤ count) :
    ColumnFormat.place pieces (offset + i) = ColumnFormat.place pieces offset +
      ColumnFormat.place ((pieces.drop offset).take count) i := by
  rw [ColumnFormat.place, ColumnFormat.place, ColumnFormat.place, List.take_add,
    List.flatten_append, List.length_append, List.take_take, Nat.min_eq_left inside]

theorem window_offsets (pieces : List Bytes) {offset count : Nat}
    (inside : offset + count ≤ pieces.length) :
    (((ColumnFormat.offsets 0 pieces).drop offset).take (count + 1)).map
        (· - ColumnFormat.place pieces offset) =
      ColumnFormat.offsets 0 ((pieces.drop offset).take count) := by
  have size : ((pieces.drop offset).take count).length = count := by
    rw [List.length_take, List.length_drop]
    omega
  apply List.ext_getElem
  · rw [List.length_map, List.length_take, List.length_drop, ColumnFormat.offsets_length,
      ColumnFormat.offsets_length, size]
    omega
  · intro i small small'
    rw [ColumnFormat.offsets_length, size] at small'
    have left := @ColumnFormat.getD_offsets _ pieces (offset + i) (by omega)
    have right := @ColumnFormat.getD_offsets _ ((pieces.drop offset).take count) i (by omega)
    rw [List.getD_eq_getElem _ _ (by rw [ColumnFormat.offsets_length]; omega)] at left
    rw [List.getD_eq_getElem _ _ (by rw [ColumnFormat.offsets_length]; omega)] at right
    rw [List.getElem_map, List.getElem_take, List.getElem_drop, left, right,
      place_drop pieces (show i ≤ count by omega), Nat.add_sub_cancel_left]

theorem headD_offsets (pieces : List Bytes) {offset : Nat} (inside : offset ≤ pieces.length) :
    ((ColumnFormat.offsets 0 pieces).drop offset).headD 0 = ColumnFormat.place pieces offset := by
  have first := @ColumnFormat.getD_offsets _ pieces offset inside
  rwa [List.headD_eq_head?_getD, List.head?_drop, ← List.getD_eq_getElem?_getD]

/-- The bytes of strings: those before the window, in it and behind it. -/
theorem bytes_split (values : List (Option Bytes)) (offset count : Nat)
    (last : ∀ v ∈ values.drop (offset + count), v.getD [] = []) :
    bytesOf .varchar (values.map entryOf) =
      ColumnFormat.place (values.map (·.getD [])) offset +
        bytesOf .varchar (((values.drop offset).take count).map entryOf) := by
  have bits (l : List (Option Bytes)) : bytesOf .varchar (l.map entryOf) =
      (l.map (·.getD [])).flatten.length := by
    rw [bytesOf, if_pos rfl, List.map_map, List.length_flatten, List.map_map]
    simp only [Function.comp_def, entryOf_bits]
  have none : ((values.drop (offset + count)).map (·.getD [])).flatten = [] := by
    rw [List.flatten_eq_nil_iff]
    intro piece member
    obtain ⟨v, inside, rfl⟩ := List.mem_map.mp member
    exact last v inside
  have parts : values = values.take offset ++ ((values.drop offset).take count ++
      values.drop (offset + count)) := by
    rw [← List.drop_drop, List.take_append_drop, List.take_append_drop]
  rw [bits, bits, ColumnFormat.place, ← List.map_take]
  conv_lhs => rw [parts]
  rw [List.map_append, List.map_append, List.flatten_append, List.flatten_append, none,
    List.append_nil, List.length_append]

/-- The window of a column, if no bytes are behind it. -/
theorem windowColumn_window (plain : Plain values c)
    (last : c.type = .varchar → ∀ v ∈ values.drop (op.offset + op.limit), v.getD [] = []) :
    ∃ o, windowColumn op c = .ok o ∧ Window (windowOf op values) o := by
  have length := plain.columnLength
  by_cases beyond : op.offset ≥ c.columnLength
  · have none : windowOf op values = [] := by
      rw [windowOf, List.drop_of_length_le (by omega), List.take_nil]
    refine ⟨_, if_pos beyond, ?_⟩
    rw [none]
    refine ⟨⟨rfl, rfl, rfl⟩, ?_, fun _ some => absurd rfl some⟩
    rw [bytesOf]
    split <;> simp [emptyColumn]
  · obtain ⟨-, empty⟩ | entries := plain.entries
    · rw [empty, List.length_nil] at length
      omega
    · have cut : windowOf op values =
          (values.drop op.offset).take (min op.limit (c.columnLength - op.offset)) := by
        rw [windowOf, List.take_eq_take_iff, List.length_drop]
        omega
      have shown : ((values.map entryOf).drop op.offset).take
          (min op.limit (c.columnLength - op.offset)) = (windowOf op values).map entryOf := by
        rw [cut, List.map_take, List.map_drop]
      have stored (numBytes : Nat) :
          Stored (windowOf op values) (plainColumn c.type ((windowOf op values).map entryOf)
            numBytes false) := by
        refine ⟨rfl, ?_, List.length_map _⟩
        simp only [Column.shown, plainColumn, List.map_map, Function.comp_def, entryOf_value,
          List.map_id']
      have bits : (values.map entryOf).map (·.bits) = values.map (·.getD []) := by
        simp only [List.map_map, Function.comp_def, entryOf_bits]
      rw [windowColumn, if_neg beyond]
      simp only [entries, shown, bits]
      by_cases string : c.type = .varchar
      · rw [if_pos string]
        refine ⟨_, rfl, stored _, ?_, fun _ _ => ?_⟩
        · simp only [plainColumn]
          rw [headD_offsets _ (by rw [List.length_map]; omega), plain.numBytes, string,
            bytes_split values op.offset op.limit (last string), Nat.add_sub_cancel_left, windowOf]
        · simp only
          rw [headD_offsets _ (by rw [List.length_map]; omega),
            window_offsets _ (by rw [List.length_map]; omega), cut, List.map_take, List.map_drop]
      · rw [if_neg string]
        refine ⟨_, rfl, stored _, ?_, fun string' => absurd string' string⟩
        simp only [plainColumn]
        rw [bytesOf, if_neg string, List.length_map, cut, List.length_take, List.length_drop]
        congr 1
        omega

end Columns

section Sorting

variable {sortedOrder : List SortKey → List Nat}
  {customStringTopN : Column → Column → OrderByType → Nat → Except Exception Column}
  {orders : List OrderByType} {keys projection out : List Column} {numResults : Nat}

/-- A sorted column is plain, and has strings only if the projection has. -/
def Sorted (projected c : Column) : Prop :=
  (∃ values, Plain values c) ∧ (c.type = .varchar → projected.type = .varchar)

theorem setFromCudfColumn_plain {column : CudfColumn} {isUnique : Bool} {c : Column}
    (run : setFromCudfColumn column isUnique = .ok c) : Plain column.values c := by
  obtain ⟨type, -, stored⟩ := bind_ok_iff.mp run
  by_cases none : column.values = []
  · simp only [none, List.map_nil, if_true] at stored
    cases stored
    rw [none]
    refine ⟨rfl, .inl ⟨rfl, rfl⟩, rfl, ?_⟩
    rw [bytesOf]
    split <;> simp [emptyColumn]
  · simp only [List.map_eq_nil_iff, none, if_false] at stored
    cases stored
    exact ⟨rfl, .inr rfl, List.length_map _, rfl⟩

theorem storedType_varchar {type : GPUColumnType} (stored : storedType type = .ok .varchar) :
    type = .varchar := by
  cases type with
  | decimal width scale =>
    rw [storedType] at stored
    split at stored
    · cases stored
    · split at stored
      · cases stored
      · split at stored <;> cases stored
  | _ => first | rfl | cases stored

theorem truncated_plain (c : Column) : Plain [] (truncated c) := by
  refine ⟨rfl, ?_, rfl, ?_⟩
  · cases data : c.entries with
    | none => exact .inl ⟨by simp [truncated, data], rfl⟩
    | some es => exact .inr (by simp [truncated, data])
  · rw [bytesOf]
    split <;> simp [truncated]

theorem sortTable_sorted (direct : ∀ p ∈ projection, p.rowIds = none)
    (run : sortTable sortedOrder keys projection orders = .ok out) :
    List.Forall₂ Sorted projection out := by
  obtain ⟨views, -, run₁⟩ := bind_ok_iff.mp run
  obtain ⟨keysTable, -, run₂⟩ := bind_ok_iff.mp run₁
  obtain ⟨views', converted, run₃⟩ := bind_ok_iff.mp run₂
  obtain ⟨projectionTable, table, run₄⟩ := bind_ok_iff.mp run₃
  obtain ⟨gatheredTable, gathered, stored⟩ := bind_ok_iff.mp run₄
  clear run run₁ run₂ run₃ run₄
  obtain ⟨same, -⟩ := tableView_inv table
  subst same
  clear table
  rw [mapM_ok_iff] at converted stored
  rw [gatherTable] at gathered
  split at gathered
  case isFalse => cases gathered
  case isTrue whole =>
    cases gathered
    clear whole
    generalize sortedOrder (sortKeys keysTable orders) = arrangement at stored
    induction converted generalizing out with
    | nil =>
      cases stored
      exact .nil
    | @cons p view _ _ head _ ih =>
      rw [List.map_cons, List.zip_cons_cons] at stored
      obtain ⟨c, out', set, others, rfl⟩ := List.forall₂_cons_left_iff.mp stored
      refine .cons ⟨⟨_, setFromCudfColumn_plain set⟩, fun string => ?_⟩
        (ih (fun p member => direct p (List.mem_cons_of_mem _ member)) others)
      have type := setFromCudfColumn_type set
      simp only [string] at type
      rw [← (convertToCudfColumn_inv (direct p List.mem_cons_self) head).1]
      exact storedType_varchar type

/-- Without the custom sort all columns are sorted ones. -/
theorem cudfOrderby_sorted (general : useCustomedImplementation keys projection numResults = false)
    (direct : ∀ p ∈ projection, p.rowIds = none)
    (run : cudfOrderby sortedOrder customStringTopN keys projection orders numResults = .ok out) :
    List.Forall₂ Sorted projection out := by
  unfold cudfOrderby at run
  rw [if_neg (by simp [general])] at run
  cases keys with
  | nil => cases run
  | cons key rest =>
    simp only at run
    split at run
    · cases run
      rw [List.forall₂_map_right_iff]
      exact List.forall₂_same.mpr fun c _ => ⟨⟨[], truncated_plain c⟩, fun string => string⟩
    · exact sortTable_sorted direct run

theorem keepResults_none {partially : Exception} {columns : List Column}
    (length : columns.length = projection.length) :
    keepResults partially (columns.map fun _ => none) projection =
      .ok (projection.map fun c => some (withoutRowIds c)) := by
  induction projection generalizing columns with
  | nil =>
    rw [List.eq_nil_of_length_eq_zero length]
    rfl
  | cons c projection ih =>
    cases columns with
    | nil => cases length
    | cons _ columns =>
      have rest := @ih columns (Nat.succ.inj length)
      rw [keepResults] at rest ⊢
      rw [List.map_cons, List.zip_cons_cons, List.mapM_cons, rest]
      rfl

end Sorting

section Runs

variable {values : ValueOrder} {op : GPUPhysicalTopN} {r : Relation} {cub : Cub}
  {sortedOrder : List SortKey → List Nat} {out : List (Option OutputColumn)}
  {keys projection sorted : List Column} {rows kept : List Row}

/-- What the sink has when it sorts. -/
structure Made (op : GPUPhysicalTopN) (r : Relation) (keys projection : List Column) : Prop where
  shown : List.Forall₂ (Shows r.columns) (List.range r.columns.length) projection
  keyed : List.Forall₂ (Keyed r.columns) op.orders keys
  short : ∀ key rest, keys = key :: rest → key.columnLength ≤ int32Max

theorem materializeInput_made
    (run : materializeInput r.columns op.orders (List.range r.columns.length) =
      .ok (projection, keys)) : Made op r keys projection := by
  obtain ⟨shown, keyed, -⟩ := materializeInput_inv run
  refine ⟨shown, keyed, fun key rest split => ?_⟩
  obtain ⟨⟨_, columns'⟩, -, run⟩ := bind_ok_iff.mp run
  obtain ⟨keys', -, run⟩ := bind_ok_iff.mp run
  cases keys' with
  | nil => cases run
  | cons key' rest' =>
    simp only at run
    split at run
    · cases run
    case isFalse short =>
      cases run
      cases split
      exact Nat.not_lt.mp short

theorem sinkInput_inv {sortResult : List (Option Column)}
    (sunk : sinkInput cub sortedOrder op r.columns = .ok sortResult) :
    ∃ keys projection sorted, Made op r keys projection ∧
      cudfOrderby sortedOrder (customColumn cub) keys projection (op.orders.map (·.type)) op.limit =
        .ok sorted ∧ (sorted.length = projection.length →
          sortResult = sorted.map fun c => some (withoutRowIds c)) := by
  obtain ⟨⟨projection, keys⟩, made, sunk⟩ := bind_ok_iff.mp sunk
  obtain ⟨sorted, ordered, kept⟩ := bind_ok_iff.mp sunk
  have made' := materializeInput_made made
  refine ⟨keys, projection, sorted, made', ordered, fun length => ?_⟩
  have projected := made'.shown.length_eq
  rw [List.length_range] at projected
  rw [keepResults_none (by omega)] at kept
  exact (Except.ok.inj kept).symm

/-- The sorted columns, and what `GetData` makes of them. -/
theorem topN_inv (run : topN cub sortedOrder op r.columns = .ok out) :
    ∃ keys projection sorted, Made op r keys projection ∧
      cudfOrderby sortedOrder (customColumn cub) keys projection (op.orders.map (·.type)) op.limit =
        .ok sorted ∧ (sorted.length = projection.length →
          getData op (sorted.map fun c => some (withoutRowIds c)) = .ok out) := by
  obtain ⟨sortResult, sunk, run⟩ := bind_ok_iff.mp run
  obtain ⟨keys, projection, sorted, made, ordered, kept⟩ := sinkInput_inv sunk
  exact ⟨keys, projection, sorted, made, ordered, fun length => by rwa [← kept length]⟩

theorem Made.direct (made : Made op r keys projection) : ∀ p ∈ projection, p.rowIds = none := by
  intro p member
  obtain ⟨i, -, c, -, materialized⟩ := exists_of_forall₂ made.shown.flip member
  exact materialized.direct

/-- The custom sort is used for one column of strings, if there is a limit. -/
theorem Made.used_iff (made : Made op r keys projection) :
    useCustomedImplementation keys projection op.limit = true ↔ 0 < op.limit ∧ Custom op r := by
  have projected := made.shown.length_eq
  have ordered := made.keyed.length_eq
  rw [List.length_range] at projected
  simp only [useCustomedImplementation, Bool.and_eq_true, beq_iff_eq, List.all_eq_true,
    decide_eq_true_eq]
  constructor
  · rintro ⟨⟨⟨⟨some, same⟩, one⟩, -⟩, strings⟩
    refine ⟨some, ordered.trans one, by omega, fun c member => ?_⟩
    obtain ⟨i, inside, rfl⟩ := List.getElem_of_mem member
    obtain ⟨c, here, materialized⟩ :=
      made.shown.get (by simpa using inside) (by omega : i < projection.length)
    simp only [List.get_eq_getElem, List.getElem_range] at here
    rw [List.getElem?_eq_getElem inside] at here
    rw [Option.some.inj here, ← materialized.type]
    exact strings _ (List.getElem_mem _)
  · rintro ⟨some, one, single, strings⟩
    refine ⟨⟨⟨⟨some, by omega⟩, by omega⟩, fun key member => ?_⟩, fun c member => ?_⟩
    · obtain ⟨i, inside, rfl⟩ := List.getElem_of_mem member
      obtain ⟨index, -, c, here, materialized⟩ := made.keyed.get (by omega) inside
      rw [← strings c (List.mem_of_getElem? here)]
      exact materialized.type
    · obtain ⟨i, inside, rfl⟩ := List.getElem_of_mem member
      obtain ⟨c, here, materialized⟩ :=
        made.shown.get (by rw [List.length_range]; omega) inside
      rw [← strings c (List.mem_of_getElem? here)]
      exact materialized.type

/-- The output is the window, if the sorted columns are plain and hold the sorted rows as far as
the window goes. -/
theorem windowed_of_sorted (some : 0 < op.limit) (perm : rows.Perm r.rows)
    (ordered : rows.Pairwise fun a b => (planOrder values (types r) op.orders a b).isLE = true)
    (enough : windowOf op kept = windowOf op rows)
    (plain : List.Forall₂ (fun p c => Plain (kept.map (valueAt · p)) c ∧
      (c.type = .varchar → ∀ a ∈ kept.drop (op.offset + op.limit), (valueAt a p).getD [] = []))
      (List.range r.columns.length) sorted)
    (run : getData op (sorted.map fun c => .some (withoutRowIds c)) = .ok out) :
    Windowed values op r out := by
  refine ⟨rows, perm, ordered, ?_⟩
  rw [getData, if_neg some.ne', mapM_ok_iff, List.forall₂_map_left_iff] at run
  generalize List.range r.columns.length = places at plain ⊢
  induction plain generalizing out with
  | nil =>
    cases run
    exact .nil
  | @cons p c _ _ head _ ih =>
    obtain ⟨last, rest, made, others, rfl⟩ := List.forall₂_cons_left_iff.mp run
    refine .cons ?_ (ih others)
    obtain ⟨o, same, window⟩ := @windowColumn_window op _ _ (plain_withoutRowIds head.1)
      fun string v member => by
        rw [← List.map_drop] at member
        obtain ⟨a, inside, rfl⟩ := List.mem_map.mp member
        exact head.2 string a inside
    obtain ⟨o', same', returned⟩ := bind_ok_iff.mp made
    rw [same] at same'
    cases same'
    cases returned
    refine ⟨o, rfl, ?_⟩
    rwa [windowOf, ← List.map_drop, ← List.map_take, ← windowOf, enough] at window

end Runs

section General

variable {values : ValueOrder} {op : GPUPhysicalTopN} {r : Relation} {cub : Cub}
  {sortedOrder : List SortKey → List Nat} {out : List (Option OutputColumn)}
  {keys projection sorted : List Column} {rows : List Row}

/-- A member behind the first ones of a sorted list comes after all of these. -/
theorem count_before {α : Type} {le : α → α → Bool} {l : List α} {k : Nat} {a : α}
    (refl : ∀ a, le a a = true) (sorted : l.Pairwise fun a b => le a b = true)
    (member : a ∈ l.drop k) : k < l.countP fun b => le b a := by
  have inside : k < l.length := by
    by_contra beyond
    rw [List.drop_of_length_le (Nat.not_lt.mp beyond)] at member
    cases member
  rw [← List.take_append_drop k l] at sorted
  have before := (List.pairwise_append.mp sorted).2.2
  have first : (l.take k).countP (fun b => le b a) = k := by
    rw [List.countP_eq_length.mpr fun b inside => before b inside a member, List.length_take,
      Nat.min_eq_left inside.le]
  have second : 0 < (l.drop k).countP fun b => le b a :=
    List.countP_pos_iff.mpr ⟨a, member, refl a⟩
  have whole := congrArg (List.countP fun b => le b a) (List.take_append_drop k l)
  rw [List.countP_append] at whole
  omega

theorem planOrder_refl (schema : List GPUColumnType) (orders : List BoundOrderByNode) (a : Row) :
    (planOrder values schema orders a a).isLE = true := by
  have trans := @planOrder_trans values schema orders
  rw [@Std.ReflCmp.compare_self _ (planOrder values schema orders) _ a]
  rfl

/-- What cudf leaves: the sorted rows, or none if the first key has no data. -/
structure GeneralRun (values : ValueOrder) (op : GPUPhysicalTopN) (r : Relation)
    (sorted : List Column) (rows : List Row) : Prop where
  plain : List.Forall₂ (fun p c => Plain (rows.map (valueAt · p)) c ∧
    (c.type = .varchar → (types r)[p]? = some .varchar)) (List.range r.columns.length) sorted
  leaves : KeyHasRows op.orders r.columns ∧ SinkSorted values op.orders r rows ∨
    ¬ KeyHasRows op.orders r.columns ∧ rows = []

theorem generalRun_of (sorts : Sorts values sortedOrder) (made : Made op r keys projection)
    (other : useCustomedImplementation keys projection op.limit = false)
    (ordered : cudfOrderby sortedOrder (customColumn cub) keys projection (op.orders.map (·.type))
      op.limit = .ok sorted) : ∃ rows, GeneralRun values op r sorted rows := by
  have each := cudfOrderby_sorted other made.direct ordered
  obtain ⟨rows, holds, leaves⟩ := cudfOrderby_inv sorts other made.keyed made.shown ordered
  refine ⟨rows, ?_, leaves⟩
  rw [List.forall₂_iff_get]
  refine ⟨holds.length_eq, fun i inside inside' => ?_⟩
  have middle : i < projection.length := by rwa [each.length_eq]
  have stored := holds.get inside inside'
  obtain ⟨⟨vals, plain⟩, strings⟩ := each.get middle inside'
  obtain ⟨c, here, materialized⟩ := made.shown.get inside middle
  have same := plain.values_eq stored
  subst same
  refine ⟨plain, fun string => ?_⟩
  rw [types, List.getElem?_map, here, Option.map_some, ← materialized.type, strings string]

theorem windowed_of_general (some : 0 < op.limit) (general : General values op r)
    (left : GeneralRun values op r sorted rows)
    (run : getData op (sorted.map fun c => .some (withoutRowIds c)) = .ok out) :
    Windowed values op r out := by
  obtain ⟨-, perm, bySink⟩ | ⟨without, -⟩ := left.leaves
  case inr => exact absurd general.keyed without
  have byPlan : rows.Pairwise fun a b =>
      (planOrder values (types r) op.orders a b).isLE = true := by
    refine bySink.imp_of_mem fun {a b} first second sorted => ?_
    rw [← orders_agree (general.placed a (perm.subset first) b (perm.subset second))]
    exact sorted
  refine windowed_of_sorted some perm byPlan rfl (left.plain.imp fun p c plain => ?_) run
  refine ⟨plain.1, fun string a member => ?_⟩
  refine general.last a (perm.subset (List.mem_of_mem_drop member)) ?_ p (plain.2 string)
  rw [← perm.countP_eq]
  exact count_before (planOrder_refl _ _) byPlan member

/-- A window behind all rows is empty. -/
theorem windowed_of_short (some : 0 < op.limit) (few : r.rowCount ≤ op.offset)
    (length : sorted.length = r.columns.length) (short : ∀ c ∈ sorted, c.columnLength ≤ op.offset)
    (run : getData op (sorted.map fun c => .some (withoutRowIds c)) = .ok out) :
    Windowed values op r out := by
  have trans := @planOrder_trans values (types r) op.orders
  have total : Std.Total fun a b => (planOrder values (types r) op.orders a b).isLE = true := by
    constructor
    intro a b
    rw [trans.eq_swap (a := b), Ordering.isLE_swap]
    cases planOrder values (types r) op.orders a b <;> simp
  have transitive : IsTrans Row fun a b =>
      (planOrder values (types r) op.orders a b).isLE = true :=
    ⟨fun a b c ab bc => trans.isLE_trans ab bc⟩
  refine ⟨r.rows.insertionSort fun a b => (planOrder values (types r) op.orders a b).isLE = true,
    List.perm_insertionSort _ _, List.pairwise_insertionSort _ _, ?_⟩
  have none : windowOf op (r.rows.insertionSort fun a b =>
      (planOrder values (types r) op.orders a b).isLE = true) = [] := by
    rw [windowOf, List.drop_of_length_le, List.take_nil]
    rw [List.length_insertionSort, rows_length]
    exact few
  rw [none]
  rw [getData, if_neg some.ne', mapM_ok_iff, List.forall₂_map_left_iff] at run
  have outs := run.length_eq
  rw [List.forall₂_iff_get]
  refine ⟨by rw [List.length_range]; omega, fun i inside inside' => ?_⟩
  have made := run.get (by omega) inside'
  obtain ⟨o, same, returned⟩ := bind_ok_iff.mp made
  have beyond : (withoutRowIds (sorted.get ⟨i, by omega⟩)).columnLength ≤ op.offset :=
    short (sorted.get ⟨i, by omega⟩) (List.get_mem _ _)
  rw [windowColumn, if_pos beyond] at same
  cases same
  refine ⟨_, (Except.ok.inj returned).symm, ⟨rfl, rfl, rfl⟩, ?_, fun _ some => absurd rfl some⟩
  rw [bytesOf]
  split <;> simp [emptyColumn]

end General

section Lettered

variable {values : ValueOrder} {op : GPUPhysicalTopN} {r : Relation} {cub : Cub}
  {sortedOrder : List SortKey → List Nat} {out : List (Option OutputColumn)}
  {keys projection sorted : List Column}

/-- What the custom sort is called for. -/
structure CustomCall (op : GPUPhysicalTopN) (r : Relation) (c : Column) (node : BoundOrderByNode) :
    Prop where
  columns : r.columns = [c]
  orders : op.orders = [node]
  reference : node.reference = some 0
  string : c.type = .varchar
  short : (layOut (bitsOf c)).count ≤ int32Max

/-- The call returns. -/
structure CustomRun (cub : Cub) (op : GPUPhysicalTopN) (r : Relation) (sorted : List Column)
    (c : Column) (node : BoundOrderByNode) (result : StringTopN.Result) : Prop
    extends CustomCall op r c node where
  ran : customStringTopN cub (layOut (bitsOf c)) (layOut (bitsOf c)) node.type op.limit =
    .ok result
  sorted : sorted = [plainColumn .varchar (result.column.strings.map fun s => ⟨s, true⟩)
    result.numBytes false]

theorem customCall_of (made : Made op r keys projection)
    (used : useCustomedImplementation keys projection op.limit = true) :
    ∃ c node, CustomCall op r c node ∧
      cudfOrderby sortedOrder (customColumn cub) keys projection (op.orders.map (·.type))
          op.limit = (do
        let result ← customStringTopN cub (layOut (bitsOf c)) (layOut (bitsOf c)) node.type op.limit
        .ok [plainColumn .varchar (result.column.strings.map fun s => ⟨s, true⟩)
          result.numBytes false]) := by
  obtain ⟨-, orders, columns, strings⟩ := made.used_iff.mp used
  obtain ⟨c, single⟩ := List.length_eq_one_iff.mp columns
  obtain ⟨node, one⟩ := List.length_eq_one_iff.mp orders
  obtain ⟨shown, keyed, short⟩ := made
  rw [single] at shown keyed
  rw [one] at keyed
  obtain ⟨p, _, ⟨c', here, materialized⟩, tail, rfl⟩ := List.forall₂_cons_left_iff.mp shown
  cases tail
  cases here
  obtain ⟨key, _, ⟨index, reference, c'', there, materialized'⟩, tail, rfl⟩ :=
    List.forall₂_cons_left_iff.mp keyed
  cases tail
  have first : index = 0 := by
    have inside := (List.getElem?_eq_some_iff.mp there).1
    rw [List.length_singleton] at inside
    omega
  subst first
  cases there
  have few := short key [] rfl
  rw [materialized'.columnLength] at few
  have string := strings c (by rw [single]; exact List.mem_cons_self)
  refine ⟨c, node, ⟨single, one, reference, string, ?_⟩, ?_⟩
  · rwa [StringTopN.layOut_count, bitsOf, List.length_map]
  · unfold cudfOrderby
    rw [if_pos used, one]
    simp only [List.map_cons, List.map_nil, customColumn, materialized.shown, materialized'.shown,
      bind_assoc]
    rfl

theorem customRun_of (made : Made op r keys projection)
    (used : useCustomedImplementation keys projection op.limit = true)
    (ordered : cudfOrderby sortedOrder (customColumn cub) keys projection (op.orders.map (·.type))
      op.limit = .ok sorted) : ∃ c node result, CustomRun cub op r sorted c node result := by
  obtain ⟨c, node, call, same⟩ := customCall_of made used
  rw [same] at ordered
  obtain ⟨result, called, returned⟩ := bind_ok_iff.mp ordered
  cases returned
  exact ⟨c, node, result, call, called, rfl⟩

theorem CustomCall.rows_eq {c : Column} {node : BoundOrderByNode} (called : CustomCall op r c node)
    (valid : ∀ a ∈ r.rows, (valueAt a 0).isSome = true) :
    r.rows = (bitsOf c).map fun s => [some s] := by
  have cell (i : Nat) (inside : i < r.rowCount) : (c.cell i).isSome = true := by
    have here : rowAt r i ∈ r.rows := List.mem_map_of_mem (List.mem_range.mpr inside)
    have set := valid _ here
    rwa [valueAt_rowAt (by rw [called.columns]; rfl)] at set
  have member : c ∈ r.columns := by
    rw [called.columns]
    exact List.mem_cons_self
  have count : c.shown.length = r.rowCount := by
    by_cases data : c.entries = none
    · have none : c.shown = [] := by rw [Column.shown, data]
      by_contra differ
      rw [none, List.length_nil] at differ
      have set := cell 0 (by omega)
      rw [Column.cell, none] at set
      cases set
    · exact shown_count member data
  rw [Relation.rows, rowsOf, called.columns, ← count, bitsOf]
  refine List.ext_getElem (by simp) fun i _ inside => ?_
  rw [List.length_map, List.length_map] at inside
  have set := cell i (by omega)
  rw [Column.cell, List.getElem?_eq_getElem inside, Option.bind_some] at set
  simp only [List.getElem_map, List.getElem_range, List.map_cons, List.map_nil, Column.cell,
    List.getElem?_eq_getElem inside, Option.bind_some]
  rw [Entry.value] at set ⊢
  split at set
  case isTrue valid' => rw [if_pos valid']
  case isFalse => cases set

/-- In the order of the plan strings are as the custom sort has them. -/
theorem planOrder_strings (bytewise : Bytewise values) {c : Column} {node : BoundOrderByNode}
    (called : CustomCall op r c node) {a b : Bytes}
    (after : StringTopN.before node.type b a = false) :
    (planOrder values (types r) op.orders [some a] [some b]).isLE = true := by
  have type : node.columnType (types r) = .varchar := by
    rw [BoundOrderByNode.columnType, called.reference, types, called.columns, ← called.string]
    rfl
  rw [called.orders, planOrder, lexicographic, lexicographic, Ordering.then_eq, compareNode, type,
    BoundOrderByNode.value, BoundOrderByNode.value, called.reference]
  have lawful := values.lawful .varchar
  change (directed node.type (values.compare .varchar a b)).isLE = true
  cases direction : node.type with
  | ascending =>
    rw [direction] at after
    have not : ¬ values.compare .varchar b a = .lt := by
      rw [bytewise, Bool.not_eq_true]
      exact after
    rw [directed, lawful.eq_swap]
    cases order : values.compare .varchar b a with
    | lt => exact absurd order not
    | eq => rfl
    | gt => rfl
  | descending =>
    rw [direction] at after
    have not : ¬ values.compare .varchar a b = .lt := by
      rw [bytewise, Bool.not_eq_true]
      exact after
    rw [directed]
    cases order : values.compare .varchar a b with
    | lt => exact absurd order not
    | eq => rfl
    | gt => rfl

/-- The call is right. -/
theorem CustomCall.right {c : Column} {node : BoundOrderByNode} (called : CustomCall op r c node)
    (some : 0 < op.limit) (lettered : Lettered op r) (cub : Cub) :
    StringTopN.Right cub (layOut (bitsOf c)) node.type op.limit := by
  have settled := lettered.settled node (by rw [called.orders]; exact List.mem_cons_self)
  rw [called.rows_eq lettered.valid, List.map_map] at settled
  have texts : (bitsOf c).map ((fun a => (valueAt a 0).getD []) ∘ fun s => [.some s]) =
      (layOut (bitsOf c)).strings := by
    rw [StringTopN.layOut_strings]
    exact List.map_id _
  rw [texts] at settled
  exact StringTopN.right_of_settled called.short some settled cub

theorem windowed_of_lettered (bytewise : Bytewise values) (some : 0 < op.limit)
    (lettered : Lettered op r) {c : Column} {node : BoundOrderByNode}
    {result : StringTopN.Result} (called : CustomRun cub op r sorted c node result)
    (run : getData op (sorted.map fun c => .some (withoutRowIds c)) = .ok out) :
    Windowed values op r out := by
  have rows := called.rows_eq lettered.valid
  obtain ⟨result', strings, ran, sort, taken, -, numBytes⟩ := called.right some lettered cub
  rw [called.ran] at ran
  cases ran
  rw [StringTopN.layOut_strings] at sort
  refine @windowed_of_sorted values op r out sorted (strings.map fun s => [.some s])
    ((strings.take op.limit).map fun s => [.some s]) some ?_ ?_ ?_ ?_ run
  · rw [rows]
    exact sort.perm.map _
  · rw [List.pairwise_map]
    exact sort.ordered.imp fun after => planOrder_strings bytewise called.toCustomCall after
  · rw [windowOf, windowOf, lettered.start, List.drop_zero, List.drop_zero, ← List.map_take,
      ← List.map_take, List.take_take, Nat.min_self]
  · rw [called.columns, called.sorted]
    have kept : ((strings.take op.limit).map fun s => [Option.some s]).map (valueAt · 0) =
        (strings.take op.limit).map Option.some := by
      rw [List.map_map]
      rfl
    refine .cons ⟨⟨rfl, .inr ?_, ?_, ?_⟩, ?_⟩ .nil
    · rw [kept, taken, List.map_map]
      rfl
    · rw [kept, taken]
      simp [plainColumn]
    · rw [kept]
      simp only [plainColumn]
      rw [numBytes, bytesOf, if_pos rfl, List.map_map, List.map_map]
      rfl
    · intro _ a member
      rw [lettered.start, Nat.zero_add, List.drop_of_length_le] at member
      · cases member
      · rw [List.length_map]
        exact List.length_take_le _ _

end Lettered

section Defined

variable {values : ValueOrder} {op : GPUPhysicalTopN} {r : Relation} {cub : Cub}
  {sortedOrder : List SortKey → List Nat} {columns keys projection : List Column}

theorem convertToCudfColumn_defined (c : Column) : convertToCudfColumn c ≠ .error .fault := by
  rw [convertToCudfColumn]
  split
  · split
    · rintro ⟨⟩
    · split <;> rintro ⟨⟩
  · cases c.type <;> rintro ⟨⟩

theorem setFromCudfColumn_defined (column : CudfColumn) (isUnique : Bool) :
    setFromCudfColumn column isUnique ≠ .error .fault := by
  refine bind_avoids ?_ fun type _ => ?_
  · cases column.type with
    | decimal width scale =>
      rw [storedType]
      split_ifs <;> rintro ⟨⟩
    | _ => rintro ⟨⟩
  · simp only
    split <;> rintro ⟨⟩

theorem tableView_defined (columns : List CudfColumn) : tableView columns ≠ .error .fault := by
  cases columns with
  | nil => rintro ⟨⟩
  | cons first rest =>
    rw [tableView]
    split <;> rintro ⟨⟩

/-- What is projected may be materialized again. -/
theorem projectColumns_defined (gathered : ∀ c ∈ columns, c.Gathered) (projections : List Nat) :
    projectColumns columns projections ≠ .error .fault ∧ ∀ projected left,
      projectColumns columns projections = .ok (projected, left) → ∀ c ∈ left, c.Gathered := by
  induction projections generalizing columns with
  | nil =>
    refine ⟨by rintro ⟨⟩, fun projected left run => ?_⟩
    cases run
    exact gathered
  | cons inputIdx rest ih =>
    rw [projectColumns]
    cases here : columns[inputIdx]? with
    | none => exact ⟨by rintro ⟨⟩, by rintro _ _ ⟨⟩⟩
    | some column =>
      have later (made : Column) (run : materialize column = .ok made) := by
        refine @ih (columns.set inputIdx made) fun c member => ?_
        rcases List.mem_or_eq_of_mem_set member with member | rfl
        · exact gathered c member
        · exact (materialize_inv run).2.gathered
      constructor
      · refine bind_avoids (materialize_defined (gathered column (List.mem_of_getElem? here)))
          fun made run => ?_
        exact bind_avoids (later made run).1 fun _ _ => by rintro ⟨⟩
      · intro projected left run
        obtain ⟨made, ran, run⟩ := bind_ok_iff.mp run
        obtain ⟨⟨others, rest⟩, ran', run⟩ := bind_ok_iff.mp run
        cases run
        exact (later made ran).2 others left ran'

theorem materializeInput_defined (gathered : ∀ c ∈ columns, c.Gathered)
    (orders : List BoundOrderByNode) (projections : List Nat) :
    materializeInput columns orders projections ≠ .error .fault := by
  obtain ⟨defined, stays⟩ := projectColumns_defined gathered projections
  refine bind_avoids defined ?_
  rintro ⟨projected, left⟩ run
  refine bind_avoids (mapM_avoids fun node _ => ?_) fun keys _ => ?_
  · rw [orderByKey]
    split
    · rintro ⟨⟩
    · split
      · rintro ⟨⟩
      case h_2 column here =>
        exact materialize_defined (stays projected left run column (List.mem_of_getElem? here))
  · cases keys with
    | nil => rintro ⟨⟩
    | cons key rest =>
      simp only
      split <;> rintro ⟨⟩

/-- The rows of the keys are rows of the projections. -/
theorem sortTable_defined (sorts : Sorts values sortedOrder)
    (keyed : List.Forall₂ (Keyed r.columns) op.orders keys) {key p : Column}
    (first : keys.head? = some key) (direct : key.rowIds = none) (inside : p ∈ projection)
    (direct' : p.rowIds = none) (same : p.shown = key.shown) :
    sortTable sortedOrder keys projection (op.orders.map (·.type)) ≠ .error .fault := by
  refine bind_avoids (mapM_avoids fun c _ => convertToCudfColumn_defined c)
    fun views converted => ?_
  refine bind_avoids (tableView_defined views) fun keysTable table => ?_
  refine bind_avoids (mapM_avoids fun c _ => convertToCudfColumn_defined c)
    fun views' converted' => ?_
  refine bind_avoids (tableView_defined views') fun projectionTable table' => ?_
  refine bind_avoids ?_ fun _ _ => mapM_avoids fun x _ => setFromCudfColumn_defined x.2 _
  obtain ⟨rfl, even⟩ := tableView_inv table
  obtain ⟨rfl, even'⟩ := tableView_inv table'
  have arranged := sorts (sortKeys keysTable (op.orders.map (·.type))) fun a member b member' =>
    even _ (mem_sortKeys member) _ (mem_sortKeys member')
  obtain ⟨rest, rfl⟩ := List.head?_eq_some_iff.mp first
  obtain ⟨node, nodes, -, -, split⟩ := List.forall₂_cons_right_iff.mp keyed
  obtain ⟨view, views, run, -, rfl⟩ := List.forall₂_cons_left_iff.mp (mapM_ok_iff.mp converted)
  rw [split] at arranged
  have perm := arranged.perm ⟨view, node.type, nullOrderOf node.type⟩ List.mem_cons_self
  obtain ⟨view', member, run'⟩ := exists_of_forall₂ (mapM_ok_iff.mp converted') inside
  have length : view'.values.length = view.values.length := by
    rw [(convertToCudfColumn_inv direct' run').2, (convertToCudfColumn_inv direct run).2, same]
  rw [gatherTable, if_pos]
  · rintro ⟨⟩
  · simp only [List.all_eq_true, decide_eq_true_eq]
    intro column member' row gathered
    rw [split] at gathered
    rw [even' column member' view' member, length]
    exact List.mem_range.mp (perm.mem_iff.mp gathered)

theorem cudfOrderby_defined (sorts : Sorts values sortedOrder) (made : Made op r keys projection)
    (other : useCustomedImplementation keys projection op.limit = false) :
    cudfOrderby sortedOrder (customColumn cub) keys projection (op.orders.map (·.type)) op.limit ≠
      .error .fault := by
  unfold cudfOrderby
  rw [if_neg (by simp [other])]
  cases shape : keys with
  | nil => rintro ⟨⟩
  | cons key rest =>
    simp only
    split
    · rintro ⟨⟩
    · have keyed := made.keyed
      rw [shape] at keyed
      obtain ⟨node, nodes, head, -, -⟩ := List.forall₂_cons_right_iff.mp keyed
      obtain ⟨index, -, c, here, materialized⟩ := head
      have inside := (List.getElem?_eq_some_iff.mp here).1
      have length := made.shown.length_eq
      rw [List.length_range] at length
      obtain ⟨c', here', materialized'⟩ :=
        made.shown.get (by rwa [List.length_range]) (by omega : index < projection.length)
      simp only [List.get_eq_getElem, List.getElem_range] at here'
      rw [here] at here'
      cases here'
      exact sortTable_defined sorts keyed rfl materialized.direct (List.getElem_mem _)
        materialized'.direct (materialized'.shown.trans materialized.shown.symm)

theorem keepResults_defined (kept : List (Option Column)) (sorted : List Column) :
    keepResults partially kept sorted ≠ .error .fault := by
  refine mapM_avoids fun x _ => ?_
  obtain ⟨kept, new⟩ := x
  cases kept with
  | none => rintro ⟨⟩
  | some c =>
    simp only [keepResult]
    split_ifs <;> rintro ⟨⟩

/-- A column that has rows has the data of these. -/
def HasRows (c : Column) : Prop := c.entries = none → c.columnLength = 0

theorem Plain.hasRows {c : Column} {vals : List (Option Bytes)} (plain : Plain vals c) :
    HasRows c := by
  intro null
  obtain ⟨-, none⟩ | some := plain.entries
  · rw [plain.columnLength, none, List.length_nil]
  · rw [null] at some
    cases some

theorem getData_defined {sorted : List Column} (rows : ∀ c ∈ sorted, HasRows c) :
    getData op (sorted.map fun c => some (withoutRowIds c)) ≠ .error .fault := by
  rw [getData]
  split
  · rintro ⟨⟩
  · refine mapM_avoids fun slot member => ?_
    obtain ⟨c, inside, rfl⟩ := List.mem_map.mp member
    refine bind_avoids ?_ fun _ _ => by rintro ⟨⟩
    rw [windowColumn]
    split
    · rintro ⟨⟩
    case isFalse before =>
      cases data : (withoutRowIds c).entries with
      | none =>
        have length : (withoutRowIds c).columnLength = 0 := rows c inside data
        omega
      | some es =>
        simp only
        split <;> rintro ⟨⟩

/-- Under the conditions the sort finds all it reads. -/
theorem ordering_defined (sorts : Sorts values sortedOrder) (supported : Supported values op r)
    (made : Made op r keys projection) :
    cudfOrderby sortedOrder (customColumn cub) keys projection (op.orders.map (·.type)) op.limit ≠
      .error .fault := by
  cases used : useCustomedImplementation keys projection op.limit with
  | false => exact cudfOrderby_defined sorts made used
  | true =>
    obtain ⟨c, node, call, same⟩ := @customCall_of op r cub sortedOrder keys projection made used
    obtain ⟨-, custom⟩ := made.used_iff.mp used
    have returns : ∃ out, customStringTopN cub (layOut (bitsOf c)) (layOut (bitsOf c)) node.type
        op.limit = .ok out := by
      rcases supported.cases with behind | general | lettered
      · have filled := behind.filled custom c (by rw [call.columns]; exact List.mem_cons_self)
        rw [← StringTopN.layOut_strings (bitsOf c)] at filled
        exact StringTopN.customStringTopN_returns call.short supported.some filled cub node.type
      · exact absurd custom general.several
      · obtain ⟨out, -, run, -⟩ := call.right supported.some lettered cub
        exact ⟨out, run⟩
    obtain ⟨out, run⟩ := returns
    rw [same, run]
    rintro ⟨⟩

theorem topN_defined (sorts : Sorts values sortedOrder) (supported : Supported values op r) :
    topN cub sortedOrder op r.columns ≠ .error .fault := by
  refine bind_avoids ?_ fun sortResult sunk => ?_
  · refine bind_avoids (materializeInput_defined supported.gathered _ _) ?_
    rintro ⟨projection, keys⟩ run
    exact bind_avoids (ordering_defined sorts supported (materializeInput_made run)) fun sorted _ =>
      keepResults_defined _ sorted
  · obtain ⟨keys, projection, sorted, made, ordered, kept⟩ := sinkInput_inv sunk
    cases used : useCustomedImplementation keys projection op.limit with
    | true =>
      obtain ⟨c, node, result, called⟩ := customRun_of made used ordered
      have length := made.shown.length_eq
      rw [List.length_range, called.columns] at length
      rw [kept (by rw [called.sorted]; exact length)]
      refine getData_defined fun c' member => ?_
      rw [called.sorted] at member
      rw [List.mem_singleton.mp member]
      rintro ⟨⟩
    | false =>
      have each := cudfOrderby_sorted used made.direct ordered
      rw [kept each.length_eq.symm]
      refine getData_defined fun c member => ?_
      obtain ⟨p, -, ⟨vals, plain⟩, -⟩ := exists_of_forall₂ each.flip member
      exact plain.hasRows

end Defined

section Correctness

variable {values : ValueOrder} {op : GPUPhysicalTopN} {r : Relation} {cub : Cub}
  {sortedOrder : List SortKey → List Nat} {out : List (Option OutputColumn)}
  {keys projection sorted : List Column}

theorem windowColumn_length {c : Column} {o : OutputColumn} (run : windowColumn op c = .ok o) :
    o.column.columnLength = min op.limit (c.columnLength - op.offset) := by
  rw [windowColumn] at run
  split at run
  · cases run
    simp only [emptyColumn]
    omega
  · cases data : c.entries with
    | none =>
      simp only [data] at run
      cases run
    | some es =>
      have long := c.long es data
      simp only [data] at run
      split at run <;>
      · cases run
        simp only [plainColumn, List.length_take, List.length_drop, long]
        omega

/-- A window has a limit, and is as long as the columns are. -/
theorem windowed_length (windowed : Windowed values op r out)
    (run : getData op (sorted.map fun c => .some (withoutRowIds c)) = .ok out) :
    0 < op.limit ∧ ∀ c ∈ sorted, min op.limit (c.columnLength - op.offset) =
      min op.limit (r.rowCount - op.offset) := by
  obtain ⟨rows, perm, -, windows⟩ := windowed
  have columns : 0 < r.columns.length := List.length_pos_iff.mpr r.some
  have outs := windows.length_eq
  rw [List.length_range] at outs
  rw [getData] at run
  split at run
  case isTrue none =>
    cases run
    obtain ⟨o, there, -⟩ := windows.get (i := 0) (by rwa [List.length_range]) (by omega)
    simp at there
  case isFalse some =>
    refine ⟨Nat.pos_of_ne_zero some, fun c member => ?_⟩
    rw [mapM_ok_iff, List.forall₂_map_left_iff] at run
    obtain ⟨i, inside, rfl⟩ := List.getElem_of_mem member
    have lengths := run.length_eq
    have made := run.get inside (by omega)
    obtain ⟨o, same, returned⟩ := bind_ok_iff.mp made
    obtain ⟨o', there, window⟩ := windows.get (i := i) (by rw [List.length_range]; omega) (by omega)
    rw [there] at returned
    cases returned
    have length := window.stored.columnLength
    rw [windowColumn_length same, List.length_map, windowOf, List.length_take, List.length_drop,
      perm.length_eq, rows_length] at length
    exact length

theorem CustomRun.length {c : Column} {node : BoundOrderByNode} {result : StringTopN.Result}
    (called : CustomRun cub op r sorted c node result) (some : 0 < op.limit) :
    op.limit < r.rowCount ∧ ∀ c' ∈ sorted, c'.columnLength = op.limit := by
  obtain ⟨less, length⟩ := StringTopN.customStringTopN_less called.short some called.ran
  constructor
  · have data : c.entries ≠ none := by
      intro null
      rw [StringTopN.layOut_count, bitsOf, Column.shown, null] at less
      cases less
    rwa [StringTopN.layOut_count, bitsOf, List.length_map,
      shown_count (by rw [called.columns]; exact List.mem_cons_self) data] at less
  · rw [called.sorted]
    intro c' member
    rw [List.mem_singleton.mp member]
    simpa [plainColumn] using length

theorem GeneralRun.length {rows : List Row} (left : GeneralRun values op r sorted rows) :
    ∀ c ∈ sorted, c.columnLength = rows.length := by
  intro c member
  obtain ⟨i, inside, rfl⟩ := List.getElem_of_mem member
  have plain := (left.plain.get (i := i) (by rwa [left.plain.length_eq]) inside).1
  have length := plain.columnLength
  rwa [List.length_map] at length

/-- The columns that are sorted, by the custom sort or by cudf. -/
theorem topN_runs (sorts : Sorts values sortedOrder)
    (run : topN cub sortedOrder op r.columns = .ok out) :
    ∃ sorted, sorted.length = r.columns.length ∧
      getData op (sorted.map fun c => some (withoutRowIds c)) = .ok out ∧
        ((0 < op.limit ∧ Custom op r ∧ ∃ c node result, CustomRun cub op r sorted c node result) ∨
          ¬ (0 < op.limit ∧ Custom op r) ∧ ∃ rows, GeneralRun values op r sorted rows) := by
  obtain ⟨keys, projection, sorted, made, ordered, run⟩ := topN_inv run
  have projected := made.shown.length_eq
  rw [List.length_range] at projected
  cases used : useCustomedImplementation keys projection op.limit with
  | true =>
    obtain ⟨c, node, result, called⟩ := customRun_of made used ordered
    have length : sorted.length = r.columns.length := by
      rw [called.sorted, called.columns]
      rfl
    obtain ⟨some, custom⟩ := made.used_iff.mp used
    exact ⟨sorted, length, run (by omega), .inl ⟨some, custom, c, node, result, called⟩⟩
  | false =>
    obtain ⟨rows, left⟩ := generalRun_of sorts made used ordered
    have length := left.plain.length_eq
    rw [List.length_range] at length
    refine ⟨sorted, length.symm, run (by omega), .inr ⟨?_, rows, left⟩⟩
    rw [← made.used_iff, used]
    exact Bool.false_ne_true

theorem windowed_of_supported (sorts : Sorts values sortedOrder) (bytewise : Bytewise values)
    (run : topN cub sortedOrder op r.columns = .ok out) (supported : Supported values op r) :
    Windowed values op r out := by
  obtain ⟨some, -, cases⟩ := supported
  obtain ⟨sorted, length, run, ⟨-, custom, c, node, result, called⟩ | ⟨other, rows, left⟩⟩ :=
    topN_runs sorts run
  · rcases cases with ⟨few, -⟩ | general | lettered
    · obtain ⟨less, lengths⟩ := called.length some
      refine windowed_of_short some few length (fun c member => ?_) run
      rw [lengths c member]
      omega
    · exact absurd custom general.several
    · exact windowed_of_lettered bytewise some lettered called run
  · rcases cases with ⟨few, -⟩ | general | lettered
    · refine windowed_of_short some few length (fun c member => ?_) run
      rw [left.length c member]
      obtain ⟨-, perm, -⟩ | ⟨-, rfl⟩ := left.leaves
      · rwa [perm.length_eq, rows_length]
      · exact Nat.zero_le _
    · exact windowed_of_general some general left run
    · exact absurd ⟨some, lettered.single⟩ other

/-- What is needed: there is a limit, and if there are rows from the offset on, the window of the
custom sort begins with the first row, and the first key of the sort of cudf has data. -/
theorem needed_of_windowed (sorts : Sorts values sortedOrder)
    (run : topN cub sortedOrder op r.columns = .ok out) (windowed : Windowed values op r out) :
    0 < op.limit ∧ (op.offset < r.rowCount → (Custom op r → op.offset = 0) ∧
      (¬ Custom op r → KeyHasRows op.orders r.columns)) := by
  have columns : 0 < r.columns.length := List.length_pos_iff.mpr r.some
  obtain ⟨sorted, length, run, ⟨-, custom, c, node, result, called⟩ | ⟨other, rows, left⟩⟩ :=
    topN_runs sorts run
  all_goals
    obtain ⟨some, lengths⟩ := windowed_length windowed run
    obtain ⟨c₀, first⟩ : ∃ c, c ∈ sorted := List.exists_mem_of_length_pos (by omega)
    have whole := lengths c₀ first
    refine ⟨some, fun inside => ?_⟩
  · obtain ⟨less, all⟩ := called.length some
    rw [all _ first] at whole
    exact ⟨fun _ => by omega, fun several => absurd custom several⟩
  · refine ⟨fun custom => absurd ⟨some, custom⟩ other, fun _ => ?_⟩
    obtain ⟨keyed, -⟩ | ⟨-, rfl⟩ := left.leaves
    · exact keyed
    · rw [left.length _ first, List.length_nil] at whole
      omega

/-- Where the output is right, and what is needed for it. -/
theorem topN_windowed (sorts : Sorts values sortedOrder) (bytewise : Bytewise values) :
    (Supported values op r → Delivered values op r (topN cub sortedOrder op r.columns)) ∧
      ∀ out, topN cub sortedOrder op r.columns = .ok out → Windowed values op r out →
        0 < op.limit ∧ (op.offset < r.rowCount → (Custom op r → op.offset = 0) ∧
          (¬ Custom op r → KeyHasRows op.orders r.columns)) := by
  refine ⟨fun supported => ?_, fun out run => needed_of_windowed sorts run⟩
  have defined := @topN_defined _ op r cub _ sorts supported
  cases run : topN cub sortedOrder op r.columns with
  | ok out => exact windowed_of_supported sorts bytewise run supported
  | error e =>
    rw [run] at defined
    cases e with
    | fault => exact absurd rfl defined
    | _ => trivial

end Correctness

section Witness

/-- The first byte that differs decides. -/
def textOrder : ValueOrder where
  compare _ := (compare : List UInt8 → List UInt8 → Ordering)
  lawful _ := inferInstance

theorem textOrder_bytewise : Bytewise textOrder := by
  intro a b
  change compare a b = .lt ↔ lessChars a b = true
  induction a generalizing b with
  | nil =>
    cases b with
    | nil => decide
    | cons y b => exact iff_of_true rfl rfl
  | cons x a ih =>
    cases b with
    | nil => exact iff_of_false (fun less => by cases less) Bool.false_ne_true
    | cons y b =>
      rw [List.compare_cons_cons, lessChars, Ordering.then_eq_lt, ih, Std.compare_eq_iff_eq]
      by_cases same : x = y
      · subst same
        simp
      · rw [if_pos same, decide_eq_true_eq]
        simp only [same, false_and, or_false]
        exact compareOfLessAndEq_eq_lt

/-- A column of strings. -/
def letters (strings : List Bytes) : Relation where
  columns := [plainColumn .varchar (strings.map fun s => ⟨s, true⟩)
    (bytesOf .varchar (strings.map fun s => ⟨s, true⟩)) false]
  rowCount := strings.length
  some := List.cons_ne_nil _ _
  even := by
    intro c member _
    rw [List.mem_singleton.mp member]
    exact List.length_map _
  empty := by
    intro c member null
    rw [List.mem_singleton.mp member] at null
    cases null
  measured := by
    intro c member _
    rw [List.mem_singleton.mp member]
    rfl

/-- ORDER BY the only column, ascending. -/
def firstLetters (limit offset : Nat) : GPUPhysicalTopN :=
  ⟨[⟨some 0, .ascending, .nullsLast⟩], limit, offset⟩

def sorter : Cub := .fromLeft WeakOrders.insertion WeakOrders.insertion_sorts

/-- The first two of four words, two of which begin alike. -/
theorem two_words : Delivered textOrder (firstLetters 2 0)
    (letters [[99, 97, 98], [98, 101], [97, 100, 100], [98, 101]])
    (topN sorter (insertionOrder textOrder) (firstLetters 2 0)
      (letters [[99, 97, 98], [98, 101], [97, 100, 100], [98, 101]]).columns) := by
  refine (topN_windowed (insertionOrder_sorts textOrder) textOrder_bytewise).1
    ⟨by decide, ?_, .inr (.inr ⟨⟨rfl, rfl, ?_⟩, rfl, by decide, ?_⟩)⟩
  · intro c member
    rw [List.mem_singleton.mp member]
    rintro _ _ _ ⟨⟩
  · intro c member
    rw [List.mem_singleton.mp member]
    rfl
  · intro node member
    rw [List.mem_singleton.mp member]
    exact ⟨⟨[99, 97, 98], by decide, by decide, by decide⟩, fun one => absurd one (by decide)⟩

theorem second_letter_run : topN sorter (insertionOrder textOrder) (firstLetters 1 1)
    (letters [[97], [98], [99]]).columns = .ok [some ⟨emptyColumn .varchar, []⟩] := by
  rfl

/-- The second of three letters is not found by the custom sort of one. -/
theorem second_missed : ∃ out, topN sorter (insertionOrder textOrder) (firstLetters 1 1)
    (letters [[97], [98], [99]]).columns = .ok out ∧
      ¬ Windowed textOrder (firstLetters 1 1) (letters [[97], [98], [99]]) out := by
  refine ⟨_, second_letter_run, fun windowed => ?_⟩
  have needed := needed_of_windowed (insertionOrder_sorts textOrder) second_letter_run windowed
  have custom : Custom (firstLetters 1 1) (letters [[97], [98], [99]]) := by
    refine ⟨rfl, rfl, fun c member => ?_⟩
    rw [List.mem_singleton.mp member]
    rfl
  have start := (needed.2 (by decide)).1 custom
  cases start

end Witness

end TopN
