import Mathlib
import SiriusGpu.Materialize

/-!
# Columns by their entries

What the operators above a scan do to the values of their columns, apart from where these lie
in memory: a column is read off its buffers, and a materialization gathers the entries its row
ids select. A null data pointer stands for a column that is entirely NULL.
-/

namespace ColumnValues

open GpuMemory (Exception Bytes State)
open GpuColumns (GPUColumnType GPUColumn getColumnTypeSize logical rawOf)
open Materialize (materializable handleMaterializeExpression)

section Columns

/-- The bytes of an entry in the data, and its bit in the mask. -/
structure Entry where
  bits : Bytes
  valid : Bool
  deriving DecidableEq

def Entry.value (e : Entry) : Option Bytes := if e.valid then some e.bits else none

/-- A column; without entries its data pointer is null. -/
structure Column where
  type : GPUColumnType
  entries : Option (List Entry)
  columnLength : Nat
  rowIds : Option (List Nat)
  numBytes : Nat
  isUnique : Bool
  long : ∀ es, entries = some es → es.length = columnLength
  inside : ∀ es, entries = some es → ∀ ids, rowIds = some ids → ∀ i ∈ ids, i < es.length

def gather (es : List Entry) (ids : List Nat) : List Entry := ids.map fun i => es.getD i ⟨[], false⟩

/-- The entries of the rows. -/
def Column.shown (c : Column) : List Entry :=
  match c.entries, c.rowIds with
  | none, _ => []
  | some es, none => es
  | some es, some ids => gather es ids

def Column.rowCount (c : Column) : Nat :=
  match c.rowIds with
  | none => c.columnLength
  | some ids => ids.length

/-- The value of a row, or NULL. -/
def Column.cell (c : Column) (row : Nat) : Option Bytes := (c.shown[row]?).bind Entry.value

/-- The bytes of some entries: of strings the last offset, else a multiple of the width. -/
def bytesOf (type : GPUColumnType) (es : List Entry) : Nat :=
  if type = .varchar then (es.map (·.bits.length)).sum else es.length * getColumnTypeSize type

/-- The byte count of a string column is its last offset. -/
def Column.Measured (c : Column) : Prop :=
  c.type = .varchar → c.numBytes = bytesOf c.type (c.entries.getD [])

instance (c : Column) : Decidable c.Measured := inferInstanceAs (Decidable (_ → _))

end Columns

section Materialization

def emptyColumn (type : GPUColumnType) : Column where
  type := type
  entries := none
  columnLength := 0
  rowIds := none
  numBytes := 0
  isUnique := false
  long := nofun
  inside := by rintro _ ⟨⟩

/-- A column without row ids. -/
def plainColumn (type : GPUColumnType) (es : List Entry) (numBytes : Nat) (isUnique : Bool) :
    Column where
  type := type
  entries := some es
  columnLength := es.length
  rowIds := none
  numBytes := numBytes
  isUnique := isUnique
  long := fun _ same => congrArg List.length (Option.some.inj same).symm
  inside := by rintro _ _ _ ⟨⟩

def Column.isEmpty (c : Column) : Bool :=
  c.entries.isNone || c.columnLength == 0 || c.rowIds == some []

def unsupported : GPUColumnType → Exception
  | .decimal _ _ =>
    .notImplemented "Unsupported sirius DECIMAL column type size in `HandleMaterializeExpression`"
  | _ => .notImplemented "Unsupported sirius column type in `HandleMaterializeExpression`"

/-- `HandleMaterializeExpression`. The kernels of strings compute their row in 32 bits, so that the
lengths of further rows, which the sums need, are never written. -/
def materialize (c : Column) : Except Exception Column :=
  if materializable c.type then
    if c.isEmpty then .ok (emptyColumn c.type)
    else match c.rowIds with
      | some ids =>
        if c.type = .varchar ∧ 2 ^ 32 < ids.length then .error .fault
        else .ok (plainColumn c.type c.shown (bytesOf c.type c.shown) c.isUnique)
      | none =>
        .ok (plainColumn c.type c.shown
          (if c.type = .varchar then c.numBytes else bytesOf c.type c.shown) c.isUnique)
  else .error (unsupported c.type)

variable {c c' : Column}

theorem shown_length (data : c.entries ≠ none) : c.shown.length = c.rowCount := by
  cases entries : c.entries with
  | none => exact absurd entries data
  | some es =>
      cases ids : c.rowIds with
      | none =>
          simp only [Column.shown, Column.rowCount, entries, ids]
          exact c.long es entries
      | some ids' =>
          simp only [Column.shown, Column.rowCount, entries, ids]
          exact List.length_map _

theorem isEmpty_iff : c.isEmpty = true ↔ c.shown = [] := by
  simp only [Column.isEmpty, Bool.or_eq_true, beq_iff_eq, Option.isNone_iff_eq_none]
  cases entries : c.entries with
  | none => simp [Column.shown, entries]
  | some es =>
      have long := c.long es entries
      cases ids : c.rowIds with
      | none => simp [Column.shown, entries, ids, ← long]
      | some ids' =>
          have inside := c.inside es entries ids' ids
          simp only [Column.shown, entries, ids, gather, List.map_eq_nil_iff, reduceCtorEq,
            false_or, Option.some.injEq]
          constructor
          · rintro (none | none)
            · rw [List.eq_nil_iff_forall_not_mem]
              intro i member
              have := inside i member
              omega
            · exact none
          · exact Or.inr

/-- The row ids of a string column are within the reach of its kernels. -/
def Column.Gathered (c : Column) : Prop :=
  c.type = .varchar → c.entries ≠ none → ∀ ids, c.rowIds = some ids → ids.length ≤ 2 ^ 32

/-- There is a case for the column, and its row ids are reached. -/
def Column.Materializes (c : Column) : Prop := materializable c.type = true ∧ c.Gathered

/-- What a materialization returns. -/
structure Materialized (c c' : Column) : Prop where
  type : c'.type = c.type
  direct : c'.rowIds = none
  shown : c'.shown = c.shown
  columnLength : c'.columnLength = c.shown.length
  null : c'.entries = none ↔ c.shown = []
  measured : c.Measured → c'.type = .varchar → c'.numBytes = bytesOf c.type c.shown

theorem materialize_ok (able : c.Materializes) :
    ∃ c', materialize c = .ok c' ∧ Materialized c c' := by
  obtain ⟨type, gathered⟩ := able
  by_cases empty : c.isEmpty = true
  · have none := isEmpty_iff.mp empty
    refine ⟨emptyColumn c.type, by rw [materialize, if_pos type, if_pos empty], ?_⟩
    constructor
    · rfl
    · rfl
    · exact none.symm
    · rw [none]
      rfl
    · rw [none]
      exact ⟨fun _ => rfl, fun _ => rfl⟩
    · intro _ string
      have string' : c.type = .varchar := string
      rw [none, string']
      rfl
  · have some : c.shown ≠ [] := fun none => empty (isEmpty_iff.mpr none)
    have data : c.entries ≠ none := fun null => some (by rw [Column.shown, null])
    cases ids : c.rowIds with
    | some ids' =>
        have reached : ¬ (c.type = .varchar ∧ 2 ^ 32 < ids'.length) := by
          rintro ⟨string, far⟩
          exact absurd (gathered string data ids' ids) (Nat.not_le.mpr far)
        refine ⟨plainColumn c.type c.shown (bytesOf c.type c.shown) c.isUnique,
          by simp only [materialize, type, empty, ids, if_neg reached]; rfl, ?_⟩
        constructor
        · rfl
        · rfl
        · rfl
        · rfl
        · exact ⟨nofun, fun none => absurd none some⟩
        · intro _ _
          rfl
    | none =>
        refine ⟨plainColumn c.type c.shown
          (if c.type = .varchar then c.numBytes else bytesOf c.type c.shown) c.isUnique,
          by simp [materialize, type, empty, ids], ?_⟩
        constructor
        · rfl
        · rfl
        · rfl
        · rfl
        · exact ⟨nofun, fun none => absurd none some⟩
        · intro measured string
          have string' : c.type = .varchar := string
          have count := measured string'
          have shown : c.shown = c.entries.getD [] := by
            cases entries : c.entries <;> simp [Column.shown, entries, ids]
          simp only [plainColumn, string', if_true]
          rw [count, string', shown]

theorem materialize_error (type : materializable c.type = false) :
    materialize c = .error (unsupported c.type) := by
  rw [materialize, if_neg (by simp [type])]

/-- Beyond the reach of the kernels what is materialized is undefined. -/
theorem materialize_fault (type : materializable c.type = true) (beyond : ¬ c.Gathered) :
    materialize c = .error .fault := by
  rw [Column.Gathered] at beyond
  push Not at beyond
  obtain ⟨string, data, ids, late, far⟩ := beyond
  have some : c.isEmpty ≠ true := by
    intro empty
    have none := isEmpty_iff.mp empty
    obtain ⟨es, entries⟩ := Option.ne_none_iff_exists'.mp data
    simp only [Column.shown, entries, late, gather, List.map_eq_nil_iff] at none
    rw [none] at far
    exact absurd far (by decide)
  rw [materialize, if_pos type, if_neg some, late]
  exact if_pos ⟨string, far⟩

theorem materialize_able (run : materialize c = .ok c') : c.Materializes := by
  by_cases type : materializable c.type = true
  · refine ⟨type, ?_⟩
    by_contra beyond
    rw [materialize_fault type beyond] at run
    cases run
  · rw [materialize_error (by simpa using type)] at run
    cases run

theorem Materialized.gathered (materialized : Materialized c c') : c'.Gathered := by
  intro _ _ ids late
  rw [materialized.direct] at late
  cases late

theorem materialize_defined (gathered : c.Gathered) : materialize c ≠ .error .fault := by
  by_cases type : materializable c.type = true
  · obtain ⟨c', run, -⟩ := materialize_ok ⟨type, gathered⟩
    rw [run]
    exact nofun
  · rw [materialize_error (by simpa using type)]
    cases c.type <;> exact nofun

theorem materialize_inv (run : materialize c = .ok c') :
    materializable c.type = true ∧ Materialized c c' := by
  have able := materialize_able run
  obtain ⟨c'', run', materialized⟩ := materialize_ok able
  rw [run] at run'
  cases run'
  exact ⟨able.1, materialized⟩

end Materialization

section Relations

/-- A relation: its columns have the same number of rows. One that is entirely NULL may also
have none. -/
structure Relation where
  columns : List Column
  rowCount : Nat
  some : columns ≠ []
  even : ∀ c ∈ columns, c.entries ≠ none → c.rowCount = rowCount
  empty : ∀ c ∈ columns, c.entries = none → c.rowCount = 0 ∨ c.rowCount = rowCount
  measured : ∀ c ∈ columns, c.Measured

abbrev Row := List (Option Bytes)

def rowsOf (columns : List Column) (count : Nat) : List Row :=
  (List.range count).map fun row => columns.map (·.cell row)

def Relation.rows (r : Relation) : List Row := rowsOf r.columns r.rowCount

variable {r : Relation} {c : Column}

theorem shown_count (member : c ∈ r.columns) (data : c.entries ≠ none) :
    c.shown.length = r.rowCount := by
  rw [shown_length data, r.even c member data]

theorem rows_length (r : Relation) : r.rows.length = r.rowCount := by
  rw [Relation.rows, rowsOf, List.length_map, List.length_range]

end Relations

section Memory

/-- A column in memory has the rows of a column by its entries. -/
structure Reads (s : State) (g : GPUColumn) (c : Column) : Prop where
  type : g.type = c.type
  count : g.rowCount = c.shown.length
  values : logical s g = some (c.shown.map Entry.value)
  bits : g.rowCount ≠ 0 → rawOf s g = some (c.shown.map Entry.bits)

theorem Reads.gathered {s : State} {g : GPUColumn} {c : Column} (reads : Reads s g c)
    (same : g.rowIds = none → c.rowIds = none) (reached : Materialize.Reached g) :
    c.Gathered := by
  intro string data ids late
  have late' : g.rowIds ≠ none := fun direct => by rw [same direct] at late; cases late
  have count := reads.count
  obtain ⟨r, here⟩ := Option.ne_none_iff_exists'.mp late'
  rw [shown_length data, Column.rowCount, late, GPUColumn.rowCount, here] at count
  have near := reached (reads.type.trans string) late'
  simp only at count
  omega

/-- The materialization in memory gathers the same rows. -/
theorem materialize_reads {s s' : State} (fresh : s.Fresh) {g g' : GPUColumn} {c : Column}
    (reads : Reads s g c) (same : g.rowIds = none → c.rowIds = none)
    (run : handleMaterializeExpression g s = (.ok g', s')) :
    ∃ c', materialize c = .ok c' ∧ Reads s' g' c' := by
  have done := Materialize.handleMaterializeExpression_ok fresh reads.values run
  have type : materializable c.type = true := by
    rw [← reads.type]
    rcases Materialize.handleMaterializeExpression_cases g with ⟨type, -⟩ | ⟨string, -⟩ | ⟨e, raise⟩
    · exact type
    · rw [string]
      rfl
    · rw [raise] at run
      cases run
  obtain ⟨c', run', materialized⟩ := materialize_ok ⟨type,
    reads.gathered same (Materialize.handleMaterializeExpression_reached reads.values run)⟩
  have length : g'.rowCount = c.shown.length := by
    rw [GPUColumn.rowCount, done.rowIds, done.columnLength, List.length_map]
  refine ⟨c', run', ?_⟩
  constructor
  · rw [done.type, reads.type, materialized.type]
  · rw [length, materialized.shown]
  · rw [done.content, materialized.shown]
  · intro some
    have some' : g.rowCount ≠ 0 := by rwa [reads.count, ← length]
    rw [done.raw some', reads.bits some', materialized.shown]

/-- Two strings, of which the second is NULL, and three row ids. -/
def stringState : State where
  contents
    | .caching 0 => some (.bytes [97, 98, 99])
    | .caching 1 => some (.words [0, 2, 3])
    | .caching 2 => some (.bits [1#32])
    | .processing 0 => some (.words [1, 0, 0])
    | _ => none
  allocationTable := [.processing 0]
  lockedAllocationTable := []
  rmmStoredBuffers := []
  next := 1

def lateStrings : GPUColumn :=
  { GpuColumns.newStringColumn 2 .varchar (some (.caching 0)) (some (.caching 1)) 3 true
      (some (.caching 2)) with
    rowIds := some (.processing 0)
    rowIdCount := 3 }

def lateEntries : Column where
  type := .varchar
  entries := some [⟨[97, 98], true⟩, ⟨[99], false⟩]
  columnLength := 2
  rowIds := some [1, 0, 0]
  numBytes := 3
  isUnique := false
  long := by rintro _ ⟨⟩; rfl
  inside := by rintro _ ⟨⟩ _ ⟨⟩; decide

theorem stringState_fresh : stringState.Fresh where
  empty := by
    rintro h ⟨n, le, rfl⟩
    match n, le with
    | n + 1, _ => rfl
  unknown := by
    rintro h ⟨n, le, rfl⟩ known
    match n, le with
    | n + 1, _ => simp [State.Known, stringState] at known
  apart := fun n allocated => by simp [stringState] at allocated

theorem strings_materialized : ∃ g' s', handleMaterializeExpression lateStrings stringState =
      (.ok g', s') ∧ ∃ c', materialize lateEntries = .ok c' ∧ Reads s' g' c' := by
  have reads : Reads stringState lateStrings lateEntries :=
    ⟨rfl, rfl, by decide, fun _ => by decide⟩
  exact ⟨_, _, rfl, materialize_reads stringState_fresh reads nofun rfl⟩

end Memory

end ColumnValues
