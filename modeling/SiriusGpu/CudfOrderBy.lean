import Mathlib
import SiriusGpu.GpuExpressions
import SiriusGpu.LexicographicOrder

/-!
# Sorting a relation with cudf

What the sinks of ORDER BY and TOP N share: projections and keys are materialized, the keys are
sorted by cudf, and the projections are gathered in the order of the keys. The placement of
NULLs in the plan is not passed on. The sort is a parameter.
-/

namespace CudfOrderBy

open GpuMemory (Exception Bytes)
open GpuColumns (GPUColumnType)
open GpuExpressions (CudfColumn convertToCudfColumn convertToCudfColumn_inv setFromCudfColumn
  setFromCudfColumn_inv Stored outOfBounds int32Max)
open ColumnValues LexicographicOrder FallibleMaps

section Orders

inductive OrderByType
  | ascending | descending
  deriving DecidableEq

inductive OrderByNullType
  | nullsFirst | nullsLast
  deriving DecidableEq

/-- A node of an ORDER BY; its expression is a reference, or is not supported. -/
structure BoundOrderByNode where
  reference : Option Nat
  type : OrderByType
  nullOrder : OrderByNullType
  deriving DecidableEq

/-- The order of the values of a type. -/
structure ValueOrder where
  compare : GPUColumnType → Bytes → Bytes → Ordering
  lawful : ∀ type, Std.TransCmp (compare type)

def directed : OrderByType → Ordering → Ordering
  | .ascending, o => o
  | .descending, o => o.swap

/-- `cudf::null_order`, which is relative to the ascending order. -/
inductive NullOrder
  | after | before
  deriving DecidableEq

def NullOrder.toOrdering : NullOrder → Ordering
  | .after => .gt
  | .before => .lt

structure SortKey where
  column : CudfColumn
  order : OrderByType
  nullOrder : NullOrder
  deriving DecidableEq

variable (values : ValueOrder)

def SortKey.compare (key : SortKey) (a b : Nat) : Ordering :=
  directed key.order (compareNullable (values.compare key.column.type) key.nullOrder.toOrdering
    (key.column.values.getD a none) (key.column.values.getD b none))

def compareRows (keys : List SortKey) : Nat → Nat → Ordering :=
  lexicographic (SortKey.compare values) keys

/-- The rows of some keys, each once, in the order of the keys. -/
structure Arranges (keys : List SortKey) (arrangement : List Nat) : Prop where
  perm : ∀ key ∈ keys, arrangement.Perm (List.range key.column.values.length)
  sorted : arrangement.Pairwise fun a b => (compareRows values keys a b).isLE = true

/-- `cudf::sorted_order` does what its arguments say. -/
def Sorts (sortedOrder : List SortKey → List Nat) : Prop :=
  ∀ keys, (∀ key ∈ keys, ∀ key' ∈ keys, key.column.values.length = key'.column.values.length) →
    Arranges values keys (sortedOrder keys)

end Orders

section Existence

variable (values : ValueOrder)

theorem directed_trans {ρ : Type} {cmp : ρ → ρ → Ordering} (trans : Std.TransCmp cmp)
    (order : OrderByType) : Std.TransCmp fun a b => directed order (cmp a b) := by
  cases order with
  | ascending => exact trans
  | descending => exact {
      eq_swap := congrArg Ordering.swap Std.OrientedCmp.eq_swap
      isLE_trans := fun ab bc => by
        rw [directed, Ordering.isLE_swap] at *
        exact Std.TransCmp.isGE_trans ab bc }

theorem compareRows_trans (keys : List SortKey) : Std.TransCmp (compareRows values keys) := by
  refine lexicographic_trans fun key _ => ?_
  have lawful := values.lawful key.column.type
  have differ : key.nullOrder.toOrdering ≠ .eq := by cases key.nullOrder <;> decide
  have nullable : Std.TransCmp (compareNullable (values.compare key.column.type)
    key.nullOrder.toOrdering) := compareNullable_trans differ
  have trans := directed_trans nullable key.order
  exact { eq_swap := trans.eq_swap, isLE_trans := trans.isLE_trans }

/-- A sort of the rows by insertion. -/
def insertionOrder (keys : List SortKey) : List Nat :=
  match keys with
  | [] => []
  | key :: _ => (List.range key.column.values.length).insertionSort fun a b =>
      (compareRows values keys a b).isLE = true

theorem insertionOrder_sorts : Sorts values (insertionOrder values) := by
  intro keys same
  cases keys with
  | nil => exact ⟨nofun, .nil⟩
  | cons key rest =>
      have trans := compareRows_trans values (key :: rest)
      constructor
      · intro key' member
        rw [same key' member key List.mem_cons_self]
        exact List.perm_insertionSort _ _
      · have total : Std.Total fun a b : Nat =>
            (compareRows values (key :: rest) a b).isLE = true := by
          constructor
          intro a b
          rw [trans.eq_swap (a := b), Ordering.isLE_swap]
          cases compareRows values (key :: rest) a b <;> simp
        have transitive : IsTrans Nat fun a b : Nat =>
            (compareRows values (key :: rest) a b).isLE = true :=
          ⟨fun a b c ab bc => trans.isLE_trans ab bc⟩
        exact List.pairwise_insertionSort _ _

end Existence

section Sorting

variable (sortedOrder : List SortKey → List Nat)
  (customStringTopN : Column → Column → OrderByType → Nat → Except Exception Column)

def nullOrderOf : OrderByType → NullOrder
  | .ascending => .after
  | .descending => .before

def sortKeys (columns : List CudfColumn) (orders : List OrderByType) : List SortKey :=
  List.zipWith (fun column order => ⟨column, order, nullOrderOf order⟩) columns orders

/-- The columns of a table have one length. -/
def tableView (columns : List CudfColumn) : Except Exception (List CudfColumn) :=
  match columns with
  | [] => .ok []
  | first :: rest =>
    if rest.all (·.values.length = first.values.length) then .ok columns
    else .error (.internal "cudf: Column size mismatch.")

/-- `cudf::gather`, which does not check the map. -/
def gatherTable (table : List CudfColumn) (map : List Nat) : Except Exception (List CudfColumn) :=
  if table.all fun column => map.all (· < column.values.length) then
    .ok (table.map fun column => ⟨column.type, map.map fun row => column.values.getD row none⟩)
  else .error .fault

def truncated (c : Column) : Column where
  type := c.type
  entries := c.entries.map fun _ => []
  columnLength := 0
  rowIds := none
  numBytes := 0
  isUnique := c.isUnique
  long es same := by
    obtain ⟨_, -, rfl⟩ := Option.map_eq_some_iff.mp same
    rfl
  inside := by rintro _ _ _ ⟨⟩

def sortTable (keys projection : List Column) (orders : List OrderByType) :
    Except Exception (List Column) := do
  let columnsCudf ← keys.mapM convertToCudfColumn
  let keysTable ← tableView columnsCudf
  let sortedOrderView := sortedOrder (sortKeys keysTable orders)
  let projectionCudf ← projection.mapM convertToCudfColumn
  let projectionTable ← tableView projectionCudf
  let gatheredTable ← gatherTable projectionTable sortedOrderView
  (projection.zip gatheredTable).mapM fun x => setFromCudfColumn x.2 x.1.isUnique

def useCustomedImplementation (keys projection : List Column) (numResults : Nat) : Bool :=
  0 < numResults && keys.length == projection.length && keys.length == 1 &&
    keys.all (·.type = .varchar) && projection.all (·.type = .varchar)

/-- `cudf_orderby`. -/
def cudfOrderby (keys projection : List Column) (orders : List OrderByType) (numResults : Nat) :
    Except Exception (List Column) :=
  if useCustomedImplementation keys projection numResults then
    match keys, projection, orders with
    | key :: _, projected :: rest, order :: _ => do
      let result ← customStringTopN key projected order numResults
      .ok (result :: rest)
    | _, _, _ => .error outOfBounds
  else match keys with
    | [] => .error outOfBounds
    | key :: _ =>
      if key.columnLength = 0 then .ok (projection.map truncated)
      else sortTable sortedOrder keys projection orders

end Sorting

section Sink

/-- The projections, and the columns in which they replace what they are read from. -/
def projectColumns (columns : List Column) :
    List Nat → Except Exception (List Column × List Column)
  | [] => .ok ([], columns)
  | inputIdx :: rest =>
    match columns[inputIdx]? with
    | none => .error outOfBounds
    | some column => do
      let projected ← materialize column
      let (projection, columns) ← projectColumns (columns.set inputIdx projected) rest
      .ok (projected :: projection, columns)

def orderByKey (columns : List Column) (node : BoundOrderByNode) : Except Exception Column :=
  match node.reference with
  | none => .error (.notImplemented "Order by expression not supported")
  | some inputIdx =>
    match columns[inputIdx]? with
    | none => .error outOfBounds
    | some column => materialize column

/-- The projections of a relation and its keys. -/
def materializeInput (columns : List Column) (orders : List BoundOrderByNode)
    (projections : List Nat) : Except Exception (List Column × List Column) := do
  let (projection, columns) ← projectColumns columns projections
  let keys ← orders.mapM (orderByKey columns)
  match keys with
  | [] => .error outOfBounds
  | key :: _ =>
    if key.columnLength > int32Max then .error (.notImplemented
      "Order by with column length greater than INT32_MAX is not supported")
    else .ok (projection, keys)

def withoutRowIds (c : Column) : Column :=
  { c with
    rowIds := none
    inside := by rintro _ _ _ ⟨⟩ }

/-- A result of an earlier sink stays if it has rows. -/
def keepResult (partially : Exception) (kept : Option Column) (new : Column) :
    Except Exception (Option Column) :=
  match kept with
  | none => .ok (some (withoutRowIds new))
  | some c =>
    if c.columnLength = 0 ∨ c.entries = none then .ok (some (withoutRowIds new))
    else if new.columnLength > 0 ∧ new.entries ≠ none then .error partially
    else .ok (some c)

def keepResults (partially : Exception) (sortResult : List (Option Column))
    (projection : List Column) : Except Exception (List (Option Column)) :=
  (sortResult.zip projection).mapM fun (kept, new) => keepResult partially kept new

/-- A sink of some rows. -/
def sink (sortedOrder : List SortKey → List Nat)
    (customStringTopN : Column → Column → OrderByType → Nat → Except Exception Column)
    (partially : Exception) (orders : List BoundOrderByNode) (projections : List Nat)
    (numResults : Nat) (columns : List Column) (sortResult : List (Option Column)) :
    Except Exception (List (Option Column)) := do
  let (projection, keys) ← materializeInput columns orders projections
  let projection ← cudfOrderby sortedOrder customStringTopN keys projection
    (orders.map (·.type)) numResults
  keepResults partially sortResult projection

end Sink

section Materialized

variable {c c' c'' : Column} {columns columns' : List Column}

theorem materialized_measured (materialized : Materialized c c') (measured : c.Measured) :
    c'.Measured := by
  intro string
  have entries : c'.shown = c'.entries.getD [] := by
    rw [Column.shown, materialized.direct]
    cases c'.entries <;> rfl
  rw [materialized.measured measured string, ← entries, materialized.shown, materialized.type]

theorem materialized_trans (first : Materialized c c') (second : Materialized c' c'') :
    Materialized c c'' := by
  constructor
  · rw [second.type, first.type]
  · exact second.direct
  · rw [second.shown, first.shown]
  · rw [second.columnLength, first.shown]
  · rw [second.null, first.shown]
  · intro measured string
    rw [second.measured (materialized_measured first measured) string, first.type, first.shown]

/-- Columns that are left, or replaced by what they materialize to. -/
def Replaced (columns columns' : List Column) : Prop :=
  List.Forall₂ (fun c c' => c' = c ∨ Materialized c c') columns columns'

/-- What a column of the input materializes to. -/
def Shows (columns : List Column) (index : Nat) (c' : Column) : Prop :=
  ∃ c, columns[index]? = some c ∧ Materialized c c'

def Keyed (columns : List Column) (node : BoundOrderByNode) (key : Column) : Prop :=
  ∃ index, node.reference = some index ∧ Shows columns index key

theorem replaced_refl (columns : List Column) : Replaced columns columns := by
  induction columns with
  | nil => exact .nil
  | cons c rest ih => exact .cons (Or.inl rfl) ih

theorem replaced_shows (replaced : Replaced columns columns') {index : Nat}
    (here : columns'[index]? = some c') (run : materialize c' = .ok c'') :
    Shows columns index c'' := by
  obtain ⟨-, materialized⟩ := materialize_inv run
  obtain ⟨inside, same⟩ := List.getElem?_eq_some_iff.mp here
  have inside' : index < columns.length := by rwa [replaced.length_eq]
  refine ⟨columns[index], List.getElem?_eq_getElem inside', ?_⟩
  rcases replaced.get inside' inside with left | first
  · simp only [List.get_eq_getElem] at left
    rwa [← left, same]
  · simp only [List.get_eq_getElem] at first
    rw [same] at first
    exact materialized_trans first materialized

theorem replaced_set (replaced : Replaced columns columns') {index : Nat}
    (shows' : Shows columns index c'') : Replaced columns (columns'.set index c'') := by
  obtain ⟨c, here, materialized⟩ := shows'
  rw [Replaced, List.forall₂_iff_get] at replaced ⊢
  obtain ⟨length, each⟩ := replaced
  refine ⟨by simpa using length, fun place inside inside' => ?_⟩
  rw [List.length_set] at inside'
  by_cases same : index = place
  · subst same
    rw [List.getElem?_eq_getElem inside] at here
    simp only [List.get_eq_getElem, List.getElem_set_self]
    rw [Option.some.inj here]
    exact Or.inr materialized
  · simp only [List.get_eq_getElem, List.getElem_set_ne same]
    simpa using each place inside inside'

theorem projectColumns_inv {projections : List Nat} {projection left : List Column}
    (replaced : Replaced columns columns')
    (run : projectColumns columns' projections = .ok (projection, left)) :
    List.Forall₂ (Shows columns) projections projection ∧ Replaced columns left := by
  induction projections generalizing columns' projection with
  | nil =>
      cases run
      exact ⟨.nil, replaced⟩
  | cons inputIdx rest ih =>
      rw [projectColumns] at run
      cases here : columns'[inputIdx]? with
      | none =>
          simp only [here] at run
          cases run
      | some column =>
          simp only [here] at run
          obtain ⟨projected, ran, run⟩ := bind_ok_iff.mp run
          obtain ⟨⟨later, left'⟩, ran', run⟩ := bind_ok_iff.mp run
          cases run
          have shows' := replaced_shows replaced here ran
          obtain ⟨all, replaced'⟩ := ih (replaced_set replaced shows') ran'
          exact ⟨.cons shows' all, replaced'⟩

theorem orderByKey_inv (replaced : Replaced columns columns') {node : BoundOrderByNode}
    {key : Column} (run : orderByKey columns' node = .ok key) : Keyed columns node key := by
  rw [orderByKey] at run
  cases reference : node.reference with
  | none =>
      simp only [reference] at run
      cases run
  | some inputIdx =>
      cases here : columns'[inputIdx]? with
      | none =>
          simp only [reference, here] at run
          cases run
      | some column =>
          simp only [reference, here] at run
          exact ⟨inputIdx, reference, replaced_shows replaced here run⟩

/-- The projections and the keys show the columns of the input. -/
theorem materializeInput_inv {orders : List BoundOrderByNode} {projections : List Nat}
    {projection keys : List Column}
    (run : materializeInput columns orders projections = .ok (projection, keys)) :
    List.Forall₂ (Shows columns) projections projection ∧
      List.Forall₂ (Keyed columns) orders keys ∧ keys ≠ [] := by
  obtain ⟨⟨projection', columns'⟩, ran, run⟩ := bind_ok_iff.mp run
  obtain ⟨all, replaced⟩ := projectColumns_inv (replaced_refl columns) ran
  obtain ⟨keys', ran', run⟩ := bind_ok_iff.mp run
  have keyed : List.Forall₂ (Keyed columns) orders keys' :=
    (mapM_ok_iff.mp ran').imp fun node key made => orderByKey_inv replaced made
  cases keys' with
  | nil => cases run
  | cons key rest =>
      simp only at run
      split at run
      · cases run
      · cases run
        exact ⟨all, keyed, List.cons_ne_nil _ _⟩

end Materialized

section Rows

def rowAt (r : Relation) (i : Nat) : Row := r.columns.map (·.cell i)

def valueAt (row : Row) (index : Nat) : Option Bytes := (row[index]?).join

variable (values : ValueOrder) (schema : List GPUColumnType)

def BoundOrderByNode.value (node : BoundOrderByNode) (row : Row) : Option Bytes :=
  node.reference.bind (valueAt row)

def BoundOrderByNode.columnType (node : BoundOrderByNode) : GPUColumnType :=
  (node.reference.bind (schema[·]?)).getD .int64

/-- The comparison of rows by a node, with the NULLs somewhere. -/
def compareNode (nulls : Ordering) (node : BoundOrderByNode) (a b : Row) : Ordering :=
  compareNullable (fun x y => directed node.type (values.compare (node.columnType schema) x y))
    nulls (node.value a) (node.value b)

def OrderByNullType.toOrdering : OrderByNullType → Ordering
  | .nullsFirst => .lt
  | .nullsLast => .gt

/-- The order of the plan. -/
def planOrder : List BoundOrderByNode → Row → Row → Ordering :=
  lexicographic fun node => compareNode values schema node.nullOrder.toOrdering node

/-- The order cudf is asked for: NULLs are last in any case. -/
def sinkOrder : List BoundOrderByNode → Row → Row → Ordering :=
  lexicographic (compareNode values schema .gt)

variable {values schema} {r : Relation} {orders : List BoundOrderByNode}
  {keys projection : List Column} {projections : List Nat}

theorem valueAt_rowAt {index : Nat} {c : Column} (here : r.columns[index]? = some c) (i : Nat) :
    valueAt (rowAt r i) index = c.cell i := by
  simp [valueAt, rowAt, here]

theorem view_cell {index : Nat} {key : Column} {view : CudfColumn}
    (shows' : Shows r.columns index key) (run : convertToCudfColumn key = .ok view) (i : Nat) :
    view.values.getD i none = valueAt (rowAt r i) index := by
  obtain ⟨c, here, materialized⟩ := shows'
  rw [(convertToCudfColumn_inv materialized.direct run).2, materialized.shown,
    valueAt_rowAt here, Column.cell, List.getD_eq_getElem?_getD, List.getElem?_map]
  cases c.shown[i]? <;> rfl

/-- cudf compares a key as the sink does, of whatever direction it is. -/
theorem sortKey_compare (typed : schema = r.columns.map (·.type)) {node : BoundOrderByNode}
    {key : Column} {view : CudfColumn} (keyed : Keyed r.columns node key)
    (run : convertToCudfColumn key = .ok view) (i j : Nat) :
    SortKey.compare values ⟨view, node.type, nullOrderOf node.type⟩ i j =
      compareNode values schema .gt node (rowAt r i) (rowAt r j) := by
  obtain ⟨index, reference, shows'⟩ := keyed
  have cells := view_cell shows' run
  obtain ⟨c, here, materialized⟩ := shows'
  have type : node.columnType schema = view.type := by
    rw [(convertToCudfColumn_inv materialized.direct run).1, materialized.type]
    simp [BoundOrderByNode.columnType, reference, typed, here]
  rw [SortKey.compare, compareNode, type]
  simp only [BoundOrderByNode.value, reference, Option.bind_some, ← cells]
  cases node.type with
  | ascending => rfl
  | descending => exact swap_compareNullable

theorem compareRows_sortKeys (typed : schema = r.columns.map (·.type))
    (keyed : List.Forall₂ (Keyed r.columns) orders keys) {views : List CudfColumn}
    (converted : List.Forall₂ (fun key view => convertToCudfColumn key = .ok view) keys views)
    (i j : Nat) : compareRows values (sortKeys views (orders.map (·.type))) i j =
      sinkOrder values schema orders (rowAt r i) (rowAt r j) := by
  induction keyed generalizing views with
  | nil =>
      cases converted
      rfl
  | cons head _ ih =>
      cases converted with
      | cons run rest =>
          have tail := ih rest
          rw [compareRows, sinkOrder] at tail ⊢
          simp only [sortKeys, List.map_cons, List.zipWith_cons_cons, lexicographic] at tail ⊢
          rw [sortKey_compare typed head run, tail]

theorem tableView_inv {columns table : List CudfColumn} (run : tableView columns = .ok table) :
    table = columns ∧ ∀ a ∈ columns, ∀ b ∈ columns, a.values.length = b.values.length := by
  cases columns with
  | nil =>
      cases run
      exact ⟨rfl, nofun⟩
  | cons first rest =>
      rw [tableView] at run
      split at run
      · cases run
        have same : ∀ a ∈ first :: rest, a.values.length = first.values.length := by
          intro a member
          rcases List.mem_cons.mp member with rfl | later
          · rfl
          · simp_all
        exact ⟨rfl, fun a member b member' => by rw [same a member, same b member']⟩
      · cases run

/-- The gathered projections hold the rows in the order of the arrangement. -/
theorem stored_of_gathered (arrangement : List Nat)
    (shown : List.Forall₂ (Shows r.columns) projections projection) {views : List CudfColumn}
    (converted : List.Forall₂ (fun c view => convertToCudfColumn c = .ok view) projection views)
    {out : List Column}
    (stored : List.Forall₂ (fun (x : Column × CudfColumn) c =>
      setFromCudfColumn x.2 x.1.isUnique = .ok c) (projection.zip (views.map fun column =>
        ⟨column.type, arrangement.map fun row => column.values.getD row none⟩)) out) :
    List.Forall₂ (fun p c => Stored
      ((arrangement.map (rowAt r)).map (valueAt · p)) c) projections out := by
  induction shown generalizing views out with
  | nil =>
      cases stored
      exact .nil
  | @cons p _ _ _ head _ ih =>
      cases converted with
      | @cons _ view _ _ run rest =>
          simp only [List.map_cons, List.zip_cons_cons] at stored
          obtain ⟨c, out', set, others, rfl⟩ := List.forall₂_cons_left_iff.mp stored
          have same : arrangement.map (fun row => view.values.getD row none) =
              (arrangement.map (rowAt r)).map (valueAt · p) := by
            rw [List.map_map]
            exact List.map_congr_left fun row _ => view_cell head run row
          have held := setFromCudfColumn_inv set
          rw [same] at held
          exact .cons held (ih rest others)

end Rows

section Sorted

variable {values : ValueOrder} {schema : List GPUColumnType} {r : Relation}
  {sortedOrder : List SortKey → List Nat} {orders : List BoundOrderByNode}
  {keys projection out : List Column} {projections : List Nat}

/-- The column of the first key. -/
def firstKey (orders : List BoundOrderByNode) (columns : List Column) : Option Column :=
  (orders.head?.bind (·.reference)).bind (columns[·]?)

/-- Whether the first key has rows: it has none if its column has no data. -/
def KeyHasRows (orders : List BoundOrderByNode) (columns : List Column) : Prop :=
  ∀ c, firstKey orders columns = some c → c.shown ≠ []

/-- The rows of the input, sorted as the sink sorts them. -/
structure SinkSorted (values : ValueOrder) (orders : List BoundOrderByNode) (r : Relation)
    (rows : List Row) : Prop where
  perm : rows.Perm r.rows
  sorted : rows.Pairwise fun a b =>
    (sinkOrder values (r.columns.map (·.type)) orders a b).isLE = true

/-- The columns hold the projections of some rows. -/
def Holds (projections : List Nat) (rows : List Row) (columns : List Column) : Prop :=
  List.Forall₂ (fun p c => Stored (rows.map (valueAt · p)) c) projections columns

theorem mem_sortKeys {columns : List CudfColumn} {types : List OrderByType} {key : SortKey}
    (member : key ∈ sortKeys columns types) : key.column ∈ columns := by
  rw [sortKeys, List.mem_iff_getElem] at member
  obtain ⟨i, inside, rfl⟩ := member
  simp

/-- The first key has the rows of the relation. -/
theorem firstView_length {node : BoundOrderByNode} {key : Column} {view : CudfColumn}
    (keyed : Keyed r.columns node key) (run : convertToCudfColumn key = .ok view)
    (some : key.columnLength ≠ 0) : view.values.length = r.rowCount := by
  obtain ⟨index, -, c, here, materialized⟩ := keyed
  have data : c.entries ≠ none := by
    intro null
    exact some (by simp [materialized.columnLength, Column.shown, null])
  rw [(convertToCudfColumn_inv materialized.direct run).2, List.length_map, materialized.shown,
    shown_count (List.mem_of_getElem? here) data]

theorem sortTable_inv (sorts : Sorts values sortedOrder)
    (keyed : List.Forall₂ (Keyed r.columns) orders keys)
    (shown : List.Forall₂ (Shows r.columns) projections projection)
    {key : Column} (first : keys.head? = some key) (some : key.columnLength ≠ 0)
    (run : sortTable sortedOrder keys projection (orders.map (·.type)) = .ok out) :
    ∃ rows, SinkSorted values orders r rows ∧ Holds projections rows out := by
  obtain ⟨views, converted, run₁⟩ := bind_ok_iff.mp run
  obtain ⟨keysTable, table, run₂⟩ := bind_ok_iff.mp run₁
  obtain ⟨views', converted', run₃⟩ := bind_ok_iff.mp run₂
  obtain ⟨projectionTable, table', run₄⟩ := bind_ok_iff.mp run₃
  obtain ⟨gatheredTable, gathered, stored⟩ := bind_ok_iff.mp run₄
  clear run run₁ run₂ run₃ run₄
  obtain ⟨same, even⟩ := tableView_inv table
  obtain ⟨same', -⟩ := tableView_inv table'
  subst same same'
  rw [mapM_ok_iff] at converted converted' stored
  rw [gatherTable] at gathered
  split at gathered
  case isFalse => cases gathered
  cases gathered
  have arranged := sorts (sortKeys keysTable (orders.map (·.type))) fun a member b member' =>
    even _ (mem_sortKeys member) _ (mem_sortKeys member')
  refine ⟨_, ?_, stored_of_gathered _ shown converted' stored⟩
  constructor
  · obtain ⟨rest, rfl⟩ := List.head?_eq_some_iff.mp first
    obtain ⟨node, nodes, keyed', -, rfl⟩ := List.forall₂_cons_right_iff.mp keyed
    obtain ⟨view, views, run, -, rfl⟩ := List.forall₂_cons_left_iff.mp converted
    have perm := arranged.perm ⟨view, node.type, nullOrderOf node.type⟩ List.mem_cons_self
    rw [firstView_length keyed' run some] at perm
    exact perm.map (rowAt r)
  · rw [List.pairwise_map]
    refine arranged.sorted.imp fun {i j} ordered => ?_
    rwa [compareRows_sortKeys rfl keyed converted] at ordered

theorem truncated_stored (c : Column) : Stored [] (truncated c) := by
  constructor
  · rfl
  · have none : (truncated c).shown = [] := by
      cases data : c.entries <;> simp [Column.shown, truncated, data]
    rw [none]
    rfl
  · rfl

/-- Without the custom sort the output is the sorted input, unless the first key has no rows:
then the output has none. -/
theorem cudfOrderby_inv (sorts : Sorts values sortedOrder)
    {customStringTopN : Column → Column → OrderByType → Nat → Except Exception Column}
    {numResults : Nat} (general : useCustomedImplementation keys projection numResults = false)
    (keyed : List.Forall₂ (Keyed r.columns) orders keys)
    (shown : List.Forall₂ (Shows r.columns) projections projection)
    (run : cudfOrderby sortedOrder customStringTopN keys projection (orders.map (·.type))
      numResults = .ok out) :
    ∃ rows, Holds projections rows out ∧
      (KeyHasRows orders r.columns ∧ SinkSorted values orders r rows ∨
        ¬ KeyHasRows orders r.columns ∧ rows = []) := by
  unfold cudfOrderby at run
  rw [if_neg (by simp [general])] at run
  cases keyed with
  | nil => cases run
  | @cons node key nodes rest keyed' later =>
      obtain ⟨index, reference, c, here, materialized⟩ := keyed'
      have first : firstKey (node :: nodes) r.columns = some c := by
        simp [firstKey, reference, here]
      have length : key.columnLength = c.shown.length := materialized.columnLength
      simp only at run
      split at run
      case isTrue none =>
        cases run
        refine ⟨[], ?_, Or.inr ⟨fun some => ?_, rfl⟩⟩
        · rw [Holds, List.forall₂_map_right_iff]
          exact shown.imp fun p c _ => truncated_stored c
        · exact some c first (List.length_eq_zero_iff.mp (by rw [← length, none]))
      case isFalse some =>
        have all : List.Forall₂ (Keyed r.columns) (node :: nodes) (key :: rest) :=
          .cons ⟨index, reference, c, here, materialized⟩ later
        obtain ⟨rows, sorted, holds⟩ := sortTable_inv sorts all shown rfl some run
        refine ⟨rows, holds, Or.inl ⟨fun c' same => ?_, sorted⟩⟩
        rw [first] at same
        cases same
        intro none
        exact some (by rw [length, none, List.length_nil])

end Sorted

section Results

variable {partially : Exception} {rows rows' : List Row} {projections : List Nat}

/-- A kept result; without one there are no rows. -/
def StoredResult (values : List (Option Bytes)) : Option Column → Prop
  | none => values = []
  | some c => Stored values c

def HoldsResult (projections : List Nat) (rows : List Row) (kept : List (Option Column)) : Prop :=
  List.Forall₂ (fun p c => StoredResult (rows.map (valueAt · p)) c) projections kept

theorem stored_empty_iff {values : List (Option Bytes)} {c : Column} (stored : Stored values c) :
    c.columnLength = 0 ∨ c.entries = none ↔ values = [] := by
  constructor
  · rintro (none | null)
    · exact List.length_eq_zero_iff.mp (by rw [← stored.columnLength, none])
    · rw [← stored.shown, Column.shown, null]
      rfl
  · intro none
    left
    rw [stored.columnLength, none, List.length_nil]

/-- Of two results one has no rows. -/
theorem keepResult_inv {kept result : Option Column} {new : Column} {p : Nat}
    (stored : StoredResult (rows.map (valueAt · p)) kept)
    (stored' : Stored (rows'.map (valueAt · p)) new)
    (run : keepResult partially kept new = .ok result) :
    (rows = [] ∨ rows' = []) ∧ StoredResult ((rows ++ rows').map (valueAt · p)) result := by
  have replaced (none : rows = []) : StoredResult ((rows ++ rows').map (valueAt · p))
      (some (withoutRowIds new)) := by
    rw [none, List.nil_append]
    constructor
    · rfl
    · rw [← stored'.shown]
      have direct := stored'.direct
      cases data : new.entries <;> simp [Column.shown, withoutRowIds, data, direct]
    · exact stored'.columnLength
  cases kept with
  | none =>
      cases run
      have none : rows = [] := List.map_eq_nil_iff.mp stored
      exact ⟨Or.inl none, replaced none⟩
  | some c =>
      have empty : c.columnLength = 0 ∨ c.entries = none ↔ rows = [] := by
        rw [stored_empty_iff stored, List.map_eq_nil_iff]
      have empty' : new.columnLength = 0 ∨ new.entries = none ↔ rows' = [] := by
        rw [stored_empty_iff stored', List.map_eq_nil_iff]
      simp only [keepResult] at run
      split at run
      case isTrue none =>
        cases run
        exact ⟨Or.inl (empty.mp none), replaced (empty.mp none)⟩
      case isFalse =>
        split at run
        · cases run
        case isFalse none' =>
          cases run
          have none : rows' = [] := empty'.mp (by
            rw [not_and_or, not_lt, Nat.le_zero, not_not] at none'
            exact none')
          refine ⟨Or.inr none, ?_⟩
          rw [none, List.append_nil]
          exact stored

theorem keepResults_inv (some : projections ≠ []) {kept result : List (Option Column)}
    {new : List Column} (held : HoldsResult projections rows kept)
    (held' : Holds projections rows' new) (run : keepResults partially kept new = .ok result) :
    (rows = [] ∨ rows' = []) ∧ HoldsResult projections (rows ++ rows') result := by
  rw [keepResults, mapM_ok_iff] at run
  have each : List.Forall₂ (fun p c => (rows = [] ∨ rows' = []) ∧
      StoredResult ((rows ++ rows').map (valueAt · p)) c) projections result := by
    clear some
    induction held generalizing new result with
    | nil =>
        cases run
        exact .nil
    | cons stored _ ih =>
        obtain ⟨c, rest, stored', tail, rfl⟩ := List.forall₂_cons_left_iff.mp held'
        rw [List.zip_cons_cons] at run
        obtain ⟨c', result', ran, others, rfl⟩ := List.forall₂_cons_left_iff.mp run
        exact .cons (keepResult_inv stored stored' ran) (ih tail others)
  constructor
  · cases each with
    | nil => exact absurd rfl some
    | cons head _ => exact head.1
  · exact each.imp fun _ _ both => both.2

end Results

section Placement

variable {values : ValueOrder} {schema : List GPUColumnType} {orders : List BoundOrderByNode}
  {a b : Row}

/-- The rows tie up to a node that has the NULLs first, where exactly one of them is NULL. -/
def Misplaced (values : ValueOrder) (schema : List GPUColumnType) (orders : List BoundOrderByNode)
    (a b : Row) : Prop :=
  ∃ before node after, orders = before ++ node :: after ∧ node.nullOrder = .nullsFirst ∧
    planOrder values schema before a b = .eq ∧ (node.value a).isSome ≠ (node.value b).isSome

theorem orders_agree (placed : ¬ Misplaced values schema orders a b) :
    sinkOrder values schema orders a b = planOrder values schema orders a b := by
  refine (agree_of_no_difference ?_).symm
  rintro ⟨before, node, after, split, ties, differ⟩
  replace differ := compareNullable_ne.mp differ
  refine placed ⟨before, node, after, split, ?_, ties, differ.2⟩
  cases first : node.nullOrder with
  | nullsFirst => rfl
  | nullsLast =>
      rw [first] at differ
      exact absurd rfl differ.1

theorem compareNode_trans (node : BoundOrderByNode) {nulls : Ordering} (differ : nulls ≠ .eq) :
    Std.TransCmp (compareNode values schema nulls node) := by
  have lawful := values.lawful (node.columnType schema)
  have directed' := directed_trans lawful node.type
  have nullable : Std.TransCmp (compareNullable (fun x y =>
      directed node.type (values.compare (node.columnType schema) x y)) nulls) :=
    compareNullable_trans differ
  exact { eq_swap := nullable.eq_swap, isLE_trans := nullable.isLE_trans }

theorem sinkOrder_trans : Std.TransCmp (sinkOrder values schema orders) :=
  lexicographic_trans fun node _ => compareNode_trans node nofun

theorem planOrder_trans : Std.TransCmp (planOrder values schema orders) :=
  lexicographic_trans fun node _ => compareNode_trans node (by cases node.nullOrder <;> decide)

theorem ties_of_plan (ties : planOrder values schema orders a b = .eq) :
    sinkOrder values schema orders a b = .eq := by
  rw [planOrder, lexicographic_eq_iff] at ties
  rw [sinkOrder, lexicographic_eq_iff]
  intro node member
  have tie := ties node member
  have differ : node.nullOrder.toOrdering ≠ .eq := by cases node.nullOrder <;> decide
  rw [compareNode, compareNullable_eq differ] at tie
  rwa [compareNode, compareNullable_eq (by decide)]

/-- A misplaced pair has one order in the plan and the other in the output. -/
theorem orders_conflict {before after : List BoundOrderByNode} {node : BoundOrderByNode}
    (first : node.nullOrder = .nullsFirst) (ties : planOrder values schema before a b = .eq)
    (some : (node.value a).isSome = true) (null : node.value b = none) :
    sinkOrder values schema (before ++ node :: after) a b = .lt ∧
      planOrder values schema (before ++ node :: after) a b = .gt := by
  obtain ⟨x, here⟩ := Option.isSome_iff_exists.mp some
  have ties' := ties_of_plan ties
  rw [planOrder] at ties
  rw [sinkOrder] at ties'
  rw [sinkOrder, planOrder, lexicographic_append, lexicographic_append, ties, ties']
  constructor
  · simp [lexicographic, compareNode, here, null, compareNullable]
  · simp [lexicographic, compareNode, here, null, compareNullable, first,
      OrderByNullType.toOrdering]

/-- No list with a misplaced pair is sorted for both. -/
theorem not_misplaced {rows : List Row}
    (sorted : rows.Pairwise fun a b => (sinkOrder values schema orders a b).isLE = true)
    (sorted' : rows.Pairwise fun a b => (planOrder values schema orders a b).isLE = true)
    (first : a ∈ rows) (second : b ∈ rows) : ¬ Misplaced values schema orders a b := by
  have conflict {a b : Row} (first : a ∈ rows) (second : b ∈ rows)
      (less : sinkOrder values schema orders a b = .lt)
      (greater : planOrder values schema orders a b = .gt) : False := by
    refine not_sorted_by_both sorted sorted' first second less ?_ greater
    rw [sinkOrder_trans.eq_swap, less]
    rfl
  rintro ⟨before, node, after, rfl, nullsFirst, ties, differ⟩
  cases here : node.value a with
  | some x =>
      have null : node.value b = none := by
        cases there : node.value b with
        | none => rfl
        | some y => simp [here, there] at differ
      obtain ⟨less, greater⟩ := orders_conflict nullsFirst ties (by rw [here]; rfl) null
      exact conflict first second less greater
  | none =>
      have some : (node.value b).isSome = true := by
        cases there : node.value b with
        | none => simp [here, there] at differ
        | some y => rfl
      have ties' : planOrder values schema before b a = .eq := by
        rw [planOrder_trans.eq_swap, ties]
        rfl
      obtain ⟨less, greater⟩ := orders_conflict nullsFirst ties' some here
      exact conflict second first less greater

end Placement

end CudfOrderBy
