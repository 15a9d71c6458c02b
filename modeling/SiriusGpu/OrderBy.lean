import Mathlib
import SiriusGpu.CudfOrderBy

/-!
# ORDER BY

`GPUPhysicalOrder`: a sink sorts its input, and a result with rows is kept. The custom sort of
strings is not used, since no number of results is passed.
-/

namespace OrderBy

open GpuMemory (Exception)
open GpuColumns (GPUColumnType)
open ColumnValues CudfOrderBy FallibleMaps LexicographicOrder

section Model

/-- The operator; a relation has columns, and so has its projection. -/
structure GPUPhysicalOrder where
  orders : List BoundOrderByNode
  projections : List Nat
  some : projections ≠ []

/-- A relation whose columns have the types of the plan. A column that a RIGHT join passes on as
NULL is without data and may be labelled with another type. -/
structure Input (schema : List GPUColumnType) where
  relation : Relation
  typed : List.Forall₂ (fun c type => c.entries = none ∨ c.type = type) relation.columns schema

variable (sortedOrder : List SortKey → List Nat)
  (customStringTopN : Column → Column → OrderByType → Nat → Except Exception Column)
  (op : GPUPhysicalOrder)

def partially : Exception :=
  .notImplemented "Order by with partially NULL values is not supported"

def sinkInput (columns : List Column) (sortResult : List (Option Column)) :
    Except Exception (List (Option Column)) :=
  sink sortedOrder customStringTopN partially op.orders op.projections 0 columns sortResult

variable {schema : List GPUColumnType}

def sinkInputs : List (Input schema) → List (Option Column) →
    Except Exception (List (Option Column))
  | [], sortResult => .ok sortResult
  | input :: rest, sortResult => do
    let sortResult ← sinkInput sortedOrder customStringTopN op input.relation.columns sortResult
    sinkInputs rest sortResult

/-- The sinks, and the relation `GetData` hands on. -/
def getData (inputs : List (Input schema)) : Except Exception (List (Option Column)) :=
  sinkInputs sortedOrder customStringTopN op inputs (op.projections.map fun _ => none)

end Model

section Meaning

variable {schema : List GPUColumnType}

def allRows (inputs : List (Input schema)) : List Row := inputs.flatMap (·.relation.rows)

/-- The output holds the rows of all inputs, in the order of the plan. -/
def Ordered (values : ValueOrder) (op : GPUPhysicalOrder) (inputs : List (Input schema))
    (out : List (Option Column)) : Prop :=
  ∃ rows, rows.Perm (allRows inputs) ∧
    (rows.Pairwise fun a b => (planOrder values schema op.orders a b).isLE = true) ∧
    HoldsResult op.projections rows out

/-- The first key of every input with rows has data, and no two rows differ first at a node
that has the NULLs first, where exactly one of them is NULL. -/
structure Sortable (values : ValueOrder) (op : GPUPhysicalOrder) (inputs : List (Input schema)) :
    Prop where
  keyed : ∀ input ∈ inputs, input.relation.rowCount ≠ 0 →
    ∀ c, firstKey op.orders input.relation.columns = some c → c.entries ≠ none
  placed : ∀ a ∈ allRows inputs, ∀ b ∈ allRows inputs, ¬ Misplaced values schema op.orders a b

/-- The keys can be read off the output. -/
def KeysProjected (op : GPUPhysicalOrder) : Prop :=
  ∀ node ∈ op.orders, ∀ index, node.reference = some index → index ∈ op.projections

end Meaning

section Runs

variable {values : ValueOrder} {schema : List GPUColumnType}
  {sortedOrder : List SortKey → List Nat}
  {customStringTopN : Column → Column → OrderByType → Nat → Except Exception Column}
  {op : GPUPhysicalOrder} {inputs : List (Input schema)}
  {sortResult result out : List (Option Column)}

/-- The rows a sink leaves of its input: all in its order, or none if the first key has none. -/
def Leaves (values : ValueOrder) (op : GPUPhysicalOrder) (input : Input schema)
    (rows : List Row) : Prop :=
  KeyHasRows op.orders input.relation.columns ∧
      SinkSorted values op.orders input.relation rows ∨
    ¬ KeyHasRows op.orders input.relation.columns ∧ rows = []

theorem sinkInput_inv (sorts : Sorts values sortedOrder) {rows : List Row} {input : Input schema}
    (held : HoldsResult op.projections rows sortResult)
    (run : sinkInput sortedOrder customStringTopN op input.relation.columns sortResult =
      .ok result) :
    ∃ rows', Leaves values op input rows' ∧ (rows = [] ∨ rows' = []) ∧
      HoldsResult op.projections (rows ++ rows') result := by
  rw [sinkInput, sink] at run
  obtain ⟨⟨projection, keys⟩, made, run⟩ := bind_ok_iff.mp run
  obtain ⟨projection', sorted, kept⟩ := bind_ok_iff.mp run
  obtain ⟨shown, keyed, -⟩ := materializeInput_inv made
  have general : useCustomedImplementation keys projection 0 = false := rfl
  obtain ⟨rows', holds, leaves⟩ := cudfOrderby_inv sorts general keyed shown sorted
  obtain ⟨one, held'⟩ := keepResults_inv op.some held holds kept
  exact ⟨rows', leaves, one, held'⟩

/-- Of the rows the sinks leave, at most those of one are not empty. -/
theorem sinkInputs_inv (sorts : Sorts values sortedOrder) {rows : List Row}
    (held : HoldsResult op.projections rows sortResult)
    (run : sinkInputs sortedOrder customStringTopN op inputs sortResult = .ok out) :
    ∃ left, List.Forall₂ (Leaves values op) inputs left ∧
      (rows :: left).Pairwise (fun a b => a = [] ∨ b = []) ∧
      HoldsResult op.projections (rows ++ left.flatten) out := by
  induction inputs generalizing rows sortResult with
  | nil =>
      cases run
      refine ⟨[], .nil, List.pairwise_singleton _ _, ?_⟩
      simpa using held
  | cons input rest ih =>
      obtain ⟨result, ran, run⟩ := bind_ok_iff.mp run
      obtain ⟨rows', leaves, one, held'⟩ := sinkInput_inv sorts held ran
      obtain ⟨left, all, pairs, final⟩ := ih held' run
      refine ⟨rows' :: left, .cons leaves all, ?_, ?_⟩
      · obtain ⟨apart, others⟩ := List.pairwise_cons.mp pairs
        refine List.pairwise_cons.mpr ⟨?_, List.pairwise_cons.mpr ⟨?_, others⟩⟩
        · intro b member
          rcases List.mem_cons.mp member with rfl | member
          · exact one
          · exact (apart b member).imp_left fun none => (List.append_eq_nil_iff.mp none).1
        · intro b member
          exact (apart b member).imp_left fun none => (List.append_eq_nil_iff.mp none).2
      · simpa [List.append_assoc] using final

end Runs

section Correctness

variable {values : ValueOrder} {schema : List GPUColumnType}
  {sortedOrder : List SortKey → List Nat}
  {customStringTopN : Column → Column → OrderByType → Nat → Except Exception Column}
  {op : GPUPhysicalOrder} {inputs : List (Input schema)} {out : List (Option Column)}
  {left : List (List Row)}

/-- The key of a node has the type of the plan, or is NULL in every row. -/
theorem columnType_input (input : Input schema) (node : BoundOrderByNode) :
    node.columnType (input.relation.columns.map (·.type)) = node.columnType schema ∨
      ∀ row ∈ input.relation.rows, node.value row = none := by
  cases reference : node.reference with
  | none =>
      refine .inr fun row _ => ?_
      rw [BoundOrderByNode.value, reference]
      rfl
  | some index =>
      rw [BoundOrderByNode.columnType, BoundOrderByNode.columnType, reference, Option.bind_some,
        Option.bind_some, List.getElem?_map]
      by_cases inside : index < input.relation.columns.length
      · have inside' : index < schema.length := by rwa [← input.typed.length_eq]
        rw [List.getElem?_eq_getElem inside, List.getElem?_eq_getElem inside']
        refine (input.typed.get inside inside').symm.imp id fun null row member => ?_
        obtain ⟨i, -, rfl⟩ := List.mem_map.mp member
        rw [BoundOrderByNode.value, reference, Option.bind_some, CudfOrderBy.valueAt,
          List.getElem?_map, List.getElem?_eq_getElem inside]
        have null : input.relation.columns[index].entries = none := null
        simp [Column.cell, Column.shown, null]
      · have outside : schema.length ≤ index := by
          rw [← input.typed.length_eq]
          exact Nat.le_of_not_lt inside
        rw [List.getElem?_eq_none (Nat.le_of_not_lt inside), List.getElem?_eq_none outside]
        exact .inl rfl

theorem sinkOrder_input (input : Input schema) {a b : Row} (first : a ∈ input.relation.rows)
    (second : b ∈ input.relation.rows) :
    sinkOrder values (input.relation.columns.map (·.type)) op.orders a b =
      sinkOrder values schema op.orders a b := by
  refine lexicographic_congr fun node _ => ?_
  rw [compareNode, compareNode]
  rcases columnType_input input node with same | null
  · rw [same]
  · rw [null a first, null b second]
    rfl

theorem leaves_sorted {input : Input schema} {rows : List Row}
    (leaves : Leaves values op input rows) :
    rows.Pairwise fun a b => (sinkOrder values schema op.orders a b).isLE = true := by
  rcases leaves with ⟨-, sorted⟩ | ⟨-, rfl⟩
  · refine sorted.sorted.imp_of_mem fun {a b} first second before => ?_
    rwa [sinkOrder_input input (sorted.perm.subset first) (sorted.perm.subset second)] at before
  · exact .nil

theorem left_sorted (all : List.Forall₂ (Leaves values op) inputs left)
    (pairs : left.Pairwise fun a b => a = [] ∨ b = []) :
    left.flatten.Pairwise fun a b => (sinkOrder values schema op.orders a b).isLE = true := by
  rw [List.pairwise_flatten]
  constructor
  · intro rows member
    obtain ⟨i, inside, rfl⟩ := List.getElem_of_mem member
    exact leaves_sorted (all.get (by rwa [all.length_eq]) inside)
  · refine pairs.imp fun one x first y second => ?_
    rcases one with rfl | rfl
    · cases first
    · cases second

/-- An input whose first key has data leaves all its rows. -/
theorem leaves_perm {input : Input schema} {rows : List Row}
    (keyed : input.relation.rowCount ≠ 0 →
      ∀ c, firstKey op.orders input.relation.columns = some c → c.entries ≠ none)
    (leaves : Leaves values op input rows) : rows.Perm input.relation.rows := by
  rcases leaves with ⟨-, sorted⟩ | ⟨without, rfl⟩
  · exact sorted.perm
  · have none : input.relation.rowCount = 0 := by
      by_contra some
      refine without fun c first => ?_
      have member : c ∈ input.relation.columns := by
        obtain ⟨index, -, here⟩ := Option.bind_eq_some_iff.mp first
        exact List.mem_of_getElem? here
      have length := shown_count member (keyed some c first)
      intro null
      rw [null, List.length_nil] at length
      exact some length.symm
    rw [List.eq_nil_of_length_eq_zero ((rows_length input.relation).trans none)]

theorem left_perm (all : List.Forall₂ (Leaves values op) inputs left)
    (keyed : ∀ input ∈ inputs, input.relation.rowCount ≠ 0 →
      ∀ c, firstKey op.orders input.relation.columns = some c → c.entries ≠ none) :
    left.flatten.Perm (allRows inputs) := by
  induction all with
  | nil => exact .nil
  | cons head _ ih =>
      rw [allRows, List.flatten_cons, List.flatMap_cons]
      exact (leaves_perm (keyed _ List.mem_cons_self) head).append
        (ih fun input member => keyed input (List.mem_cons_of_mem _ member))

theorem ordered_of_sortable (sortable : Sortable values op inputs)
    (all : List.Forall₂ (Leaves values op) inputs left)
    (pairs : left.Pairwise fun a b => a = [] ∨ b = [])
    (held : HoldsResult op.projections left.flatten out) : Ordered values op inputs out := by
  have perm := left_perm all sortable.keyed
  refine ⟨left.flatten, perm, ?_, held⟩
  refine (left_sorted all pairs).imp_of_mem fun {a b} first second sorted => ?_
  rwa [orders_agree (sortable.placed a (perm.subset first) b (perm.subset second))] at sorted

/-- An input leaves no more rows than it has. -/
theorem leaves_length {input : Input schema} {rows : List Row}
    (leaves : Leaves values op input rows) : rows.length ≤ input.relation.rows.length := by
  rcases leaves with ⟨-, sorted⟩ | ⟨-, rfl⟩
  · exact sorted.perm.length_eq.le
  · exact Nat.zero_le _

theorem left_length (all : List.Forall₂ (Leaves values op) inputs left) :
    left.flatten.length ≤ (allRows inputs).length := by
  induction all with
  | nil => exact Nat.le_refl _
  | cons head _ ih =>
      rw [allRows] at ih ⊢
      rw [List.flatten_cons, List.flatMap_cons, List.length_append, List.length_append]
      have := leaves_length head
      omega

/-- If no row is lost, every input with rows has a first key with rows. -/
theorem keyed_of_length (all : List.Forall₂ (Leaves values op) inputs left)
    (length : left.flatten.length = (allRows inputs).length) :
    ∀ input ∈ inputs, input.relation.rowCount ≠ 0 →
      KeyHasRows op.orders input.relation.columns := by
  induction all with
  | nil => nofun
  | @cons first rows _ _ head tail ih =>
      rw [allRows] at ih length
      rw [List.flatten_cons, List.flatMap_cons, List.length_append, List.length_append] at length
      have most := leaves_length head
      have most' := left_length tail
      rw [allRows] at most'
      intro input member some
      rcases List.mem_cons.mp member with rfl | later
      · rcases head with ⟨keyed, -⟩ | ⟨-, rfl⟩
        · exact keyed
        · rw [rows_length] at length
          rw [List.length_nil] at length
          omega
      · exact ih (by omega) input later some

theorem storedResult_unique {values values' : List (Option GpuMemory.Bytes)} {c : Option Column}
    (stored : StoredResult values c) (stored' : StoredResult values' c) : values = values' := by
  cases c with
  | none => rw [stored, stored']
  | some c => rw [← stored.shown, ← stored'.shown]

theorem held_values {rows rows' : List Row} {projections : List Nat}
    (held : HoldsResult projections rows out) (held' : HoldsResult projections rows' out) :
    ∀ p ∈ projections, rows.map (valueAt · p) = rows'.map (valueAt · p) := by
  induction held with
  | nil => exact fun p member => absurd member List.not_mem_nil
  | cons head _ ih =>
      obtain ⟨head', tail'⟩ := List.forall₂_cons.mp held'
      intro p member
      rcases List.mem_cons.mp member with rfl | later
      · exact storedResult_unique head head'
      · exact ih tail' p later

/-- Rows with the same keys are sorted alike. -/
theorem sorted_of_keys {rows rows' : List Row} {orders : List BoundOrderByNode}
    (length : rows.length = rows'.length)
    (same : ∀ node ∈ orders, rows.map node.value = rows'.map node.value)
    (sorted : rows'.Pairwise fun a b => (sinkOrder values schema orders a b).isLE = true) :
    rows.Pairwise fun a b => (sinkOrder values schema orders a b).isLE = true := by
  rw [List.pairwise_iff_getElem] at sorted ⊢
  intro i j inside inside' before
  have ordered := sorted i j (by omega) (by omega) before
  have value (k : Nat) (inside : k < rows.length) (inside' : k < rows'.length)
      (node : BoundOrderByNode) (member : node ∈ orders) :
      node.value rows[k] = node.value rows'[k] := by
    have here := congrArg (·[k]?) (same node member)
    simpa [inside, inside'] using here
  have equal : sinkOrder values schema orders rows[i] rows[j] =
      sinkOrder values schema orders rows'[i] rows'[j] := by
    refine lexicographic_congr fun node member => ?_
    rw [compareNode, compareNode, value i inside (by omega) node member,
      value j inside' (by omega) node member]
  rwa [equal]

theorem value_of_projections {rows rows' : List Row} (projected : KeysProjected op)
    (same : ∀ p ∈ op.projections, rows.map (valueAt · p) = rows'.map (valueAt · p))
    (length : rows.length = rows'.length) :
    ∀ node ∈ op.orders, rows.map node.value = rows'.map node.value := by
  intro node member
  cases reference : node.reference with
  | none =>
      have null : node.value = fun _ => none := by
        funext row
        rw [BoundOrderByNode.value, reference]
        rfl
      simp [null, length]
  | some index =>
      have read : node.value = (valueAt · index) := by
        funext row
        rw [BoundOrderByNode.value, reference]
        rfl
      rw [read]
      exact same index (projected node member index reference)

theorem sortable_of_ordered (projected : KeysProjected op)
    (all : List.Forall₂ (Leaves values op) inputs left)
    (pairs : left.Pairwise fun a b => a = [] ∨ b = [])
    (held : HoldsResult op.projections left.flatten out)
    (ordered : Ordered values op inputs out) : Sortable values op inputs := by
  obtain ⟨rows, perm, sorted, held'⟩ := ordered
  have same := held_values held' held
  have length : rows.length = left.flatten.length := by
    obtain ⟨p, member⟩ := List.exists_mem_of_ne_nil op.projections op.some
    have lengths := congrArg List.length (same p member)
    rwa [List.length_map, List.length_map] at lengths
  constructor
  · intro input member some c first null
    have keyed := keyed_of_length all (length.symm.trans perm.length_eq) input member some
    exact keyed c first (by rw [Column.shown, null])
  · intro a first b second
    have sorted' := sorted_of_keys length (value_of_projections projected same length)
      (left_sorted all pairs)
    exact not_misplaced sorted' sorted (perm.mem_iff.mpr first) (perm.mem_iff.mpr second)

/-- When the operator orders its input: it does for any projection if the first keys have data
and the placement of NULLs is immaterial, and otherwise it does not where the keys are
projected. -/
theorem ordered_iff_sortable (sorts : Sorts values sortedOrder)
    (run : getData sortedOrder customStringTopN op inputs = .ok out) :
    (Sortable values op inputs → Ordered values op inputs out) ∧
      (KeysProjected op → Ordered values op inputs out → Sortable values op inputs) := by
  have start : HoldsResult op.projections [] (op.projections.map fun _ => none) := by
    rw [HoldsResult, List.forall₂_map_right_iff]
    exact List.forall₂_same.mpr fun _ _ => rfl
  obtain ⟨left, all, pairs, held⟩ := sinkInputs_inv sorts start run
  have pairs' := (List.pairwise_cons.mp pairs).2
  rw [List.nil_append] at held
  constructor
  · exact fun sortable => ordered_of_sortable sortable all pairs' held
  · exact fun projected ordered => sortable_of_ordered projected all pairs' held ordered

end Correctness

section Witness

/-- The first byte decides. -/
def byteOrder : ValueOrder where
  compare _ := compareOn fun bytes => bytes.headD 0
  lawful _ := inferInstance

def noTopN (_ _ : Column) (_ : OrderByType) (_ : Nat) : Except Exception Column := .error .fault

/-- ORDER BY the only column, ascending. -/
def ascending (nullOrder : OrderByNullType) : GPUPhysicalOrder where
  orders := [⟨some 0, .ascending, nullOrder⟩]
  projections := [0]
  some := List.cons_ne_nil _ _

def integers (entries : List Entry) : Column :=
  plainColumn .int32 entries (4 * entries.length) false

def integerInput (entries : List Entry) : Input [.int32] where
  relation := {
    columns := [integers entries]
    rowCount := entries.length
    some := List.cons_ne_nil _ _
    even := fun c member _ => by rw [List.mem_singleton.mp member]; rfl
    empty := fun c member null => by rw [List.mem_singleton.mp member] at null; cases null
    measured := fun c member string => by
      rw [List.mem_singleton.mp member] at string; cases string }
  typed := .cons (.inr rfl) .nil

/-- Two values, the greater first. -/
def sevenThree : Input [.int32] := integerInput [⟨[7, 0, 0, 0], true⟩, ⟨[3, 0, 0, 0], true⟩]

/-- A value, and a NULL. -/
def sevenNull : Input [.int32] := integerInput [⟨[7, 0, 0, 0], true⟩, ⟨[0, 0, 0, 0], false⟩]

theorem sevenThree_sorted : getData (insertionOrder byteOrder) noTopN (ascending .nullsLast)
    [sevenThree] = .ok [some (integers [⟨[3, 0, 0, 0], true⟩, ⟨[7, 0, 0, 0], true⟩])] := by
  rfl

theorem sevenNull_sorted : getData (insertionOrder byteOrder) noTopN (ascending .nullsFirst)
    [sevenNull] = .ok [some (integers [⟨[7, 0, 0, 0], true⟩, ⟨[], false⟩])] := by
  rfl

theorem sevenThree_ordered : Ordered byteOrder (ascending .nullsLast) [sevenThree]
    [some (integers [⟨[3, 0, 0, 0], true⟩, ⟨[7, 0, 0, 0], true⟩])] := by
  refine (ordered_iff_sortable (insertionOrder_sorts byteOrder) sevenThree_sorted).1 ?_
  constructor
  · intro input member _ c first
    rw [List.mem_singleton.mp member] at first
    cases first
    exact Option.some_ne_none _
  · rintro a - b - ⟨before, node, after, split, nullsFirst, -⟩
    have member : node ∈ (ascending .nullsLast).orders := by
      rw [split]
      simp
    rw [List.mem_singleton.mp member] at nullsFirst
    cases nullsFirst

/-- NULLS FIRST leaves the NULL last. -/
theorem null_left_last : ∃ out, getData (insertionOrder byteOrder) noTopN
    (ascending .nullsFirst) [sevenNull] = .ok out ∧
      ¬ Ordered byteOrder (ascending .nullsFirst) [sevenNull] out := by
  refine ⟨_, sevenNull_sorted, ?_⟩
  rintro ⟨rows, -, sorted, held⟩
  obtain ⟨stored, -⟩ := List.forall₂_cons.mp held
  have shown : rows.map (valueAt · 0) = [some [7, 0, 0, 0], none] := stored.shown.symm
  obtain ⟨first, rest, rfl, seven, shown⟩ := List.map_eq_cons_iff.mp shown
  obtain ⟨second, rest, rfl, null, -⟩ := List.map_eq_cons_iff.mp shown
  have ordered := (List.pairwise_cons.mp sorted).1 second List.mem_cons_self
  have reversed : planOrder byteOrder [.int32] (ascending .nullsFirst).orders first second =
      .gt := by
    simp [planOrder, ascending, lexicographic, compareNode, BoundOrderByNode.value, seven, null,
      compareNullable, OrderByNullType.toOrdering]
  rw [reversed] at ordered
  cases ordered

end Witness

end OrderBy
