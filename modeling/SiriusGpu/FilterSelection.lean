import Mathlib
import SiriusGpu.GpuExpressions

/-!
# Selection by a filter

`GpuExpressionExecutor::Select`. The filter is executed to a column of booleans, of which the
data alone decides which rows are selected: the mask is not read. The row ids of the selected
rows are composed with those the columns have.
-/

namespace FilterSelection

open ColumnValues GpuExpressions

section Model

/-- The byte of a boolean. -/
def flag (e : Entry) : Bool := e.bits.any (· ≠ 0)

/-- The column a filter evaluates to on a relation. -/
structure Bitmap (r : Relation) where
  entries : List Entry
  whole : entries.length = r.rowCount

/-- `DispatchSelect`: the places of the set flags, in their order. -/
def dispatchSelect (bitmap : List Entry) : List Nat :=
  (List.range bitmap.length).filter fun row => (bitmap[row]?).any flag

theorem dispatchSelect_within {r : Relation} (bitmap : Bitmap r) :
    ∀ row ∈ dispatchSelect bitmap.entries, row < r.rowCount := by
  intro row member
  rw [← bitmap.whole]
  exact List.mem_range.mp (List.mem_of_mem_filter member)

def noRows (c : Column) : Column := { emptyColumn c.type with isUnique := c.isUnique }

/-- The row ids of selected rows of a column. -/
def composed (c : Column) (rowIds : List Nat) : List Nat :=
  match c.rowIds with
  | none => rowIds
  | some previous => rowIds.map fun row => previous.getD row 0

theorem composed_within {c : Column} {rowIds : List Nat}
    (within : c.entries ≠ none → ∀ row ∈ rowIds, row < c.rowCount) (es : List Entry)
    (data : c.entries = some es) : ∀ i ∈ composed c rowIds, i < es.length := by
  have within' := within (by rw [data]; exact Option.some_ne_none es)
  rw [composed]
  cases previous : c.rowIds with
  | none =>
      rw [Column.rowCount, previous] at within'
      simpa only [c.long es data] using within'
  | some previous' =>
      rw [Column.rowCount, previous] at within'
      intro i member
      obtain ⟨row, selected, rfl⟩ := List.mem_map.mp member
      have inside := within' row selected
      rw [List.getD_eq_getElem _ _ inside]
      exact c.inside es data previous' previous _ (List.getElem_mem inside)

/-- A column behind some row ids. -/
def behind (c : Column) (rowIds : List Nat)
    (within : c.entries ≠ none → ∀ row ∈ rowIds, row < c.rowCount) : Column :=
  { c with
    rowIds := some (composed c rowIds)
    inside := fun es data ids same => by
      rw [← Option.some.inj same]
      exact composed_within within es data }

/-- `HandleMaterializeRowIDs`. -/
def handleMaterializeRowIDs (r : Relation) (rowIds : List Nat)
    (within : ∀ row ∈ rowIds, row < r.rowCount) : List Column :=
  if rowIds.length = 0 then r.columns.map noRows
  else r.columns.attach.map fun c => behind c.1 rowIds fun data row member => by
    rw [r.even c.1 c.2 data]
    exact within row member

structure Selection where
  rowIds : List Nat
  columns : List Column

def select (r : Relation) (filter : Expression) (bitmap : Bitmap r) : Selection :=
  if skipped r.columns filter then ⟨[], handleMaterializeRowIDs r [] nofun⟩
  else
    let rowIds := dispatchSelect bitmap.entries
    ⟨rowIds, handleMaterializeRowIDs r rowIds (dispatchSelect_within bitmap)⟩

end Model

section Meaning

/-- A value is TRUE if it is valid and set. -/
def isTrue (e : Entry) : Bool := e.valid && flag e

/-- The rows at which the filter is TRUE. -/
def trueRows {r : Relation} (bitmap : Bitmap r) : List Nat :=
  (List.range r.rowCount).filter fun row => (bitmap.entries[row]?).any isTrue

/-- The selected rows are those at which the filter is TRUE, and they are the output. -/
structure Selects (r : Relation) (bitmap : Bitmap r) (selection : Selection) : Prop where
  rowIds : selection.rowIds = trueRows bitmap
  counts : ∀ c ∈ selection.columns, c.rowCount = selection.rowIds.length
  rows : rowsOf selection.columns selection.rowIds.length =
    selection.rowIds.map fun row => r.columns.map (·.cell row)

end Meaning

section Rows

variable {r : Relation} {rowIds : List Nat}

theorem composed_length (c : Column) : (composed c rowIds).length = rowIds.length := by
  rw [composed]
  cases c.rowIds <;> simp

/-- A row behind the row ids is the row they select. -/
theorem cell_behind {c : Column}
    (within : c.entries ≠ none → ∀ row ∈ rowIds, row < c.rowCount) {place : Nat}
    (inside : place < rowIds.length) :
    (behind c rowIds within).cell place = c.cell rowIds[place] := by
  cases data : c.entries with
  | none => simp [Column.cell, Column.shown, behind, data]
  | some es =>
      have selected : rowIds[place] < c.rowCount :=
        within (by simp [data]) _ (List.getElem_mem inside)
      cases previous : c.rowIds with
      | none =>
          have stored : rowIds[place] < es.length := by
            simpa [Column.rowCount, previous, c.long es data] using selected
          simp [Column.cell, Column.shown, behind, composed, gather, data, previous, inside,
            stored]
      | some previous' =>
          rw [Column.rowCount, previous] at selected
          simp [Column.cell, Column.shown, behind, composed, gather, data, previous, inside,
            selected]

/-- The output has the selected rows. -/
theorem handleMaterializeRowIDs_rows (within : ∀ row ∈ rowIds, row < r.rowCount) :
    (∀ c ∈ handleMaterializeRowIDs r rowIds within, c.rowCount = rowIds.length) ∧
      rowsOf (handleMaterializeRowIDs r rowIds within) rowIds.length =
        rowIds.map fun row => r.columns.map (·.cell row) := by
  rw [handleMaterializeRowIDs]
  by_cases none : rowIds.length = 0
  · rw [if_pos none]
    constructor
    · intro c member
      obtain ⟨old, -, rfl⟩ := List.mem_map.mp member
      exact none.symm
    · rw [List.length_eq_zero_iff.mp none]
      rfl
  · rw [if_neg none]
    constructor
    · intro c member
      obtain ⟨old, -, rfl⟩ := List.mem_map.mp member
      exact composed_length old.1
    · refine List.ext_getElem (by simp [rowsOf]) fun place _ inside => ?_
      have inside' : place < rowIds.length := by simpa using inside
      simp only [rowsOf, List.getElem_map, List.getElem_range, List.map_map]
      have moved (c : {c // c ∈ r.columns}) := cell_behind (c := c.1) (fun data row member => by
        rw [r.even c.1 c.2 data]
        exact within row member) inside'
      simp only [Function.comp_def, moved]
      exact List.attach_map_val (f := fun c : Column => c.cell rowIds[place])

end Rows

section Selection

variable {r : Relation} {filter : Expression} {bitmap : Bitmap r}

/-- The flags select the rows that are TRUE exactly when no NULL has its flag set. -/
theorem dispatchSelect_iff : dispatchSelect bitmap.entries = trueRows bitmap ↔
    ∀ e ∈ bitmap.entries, e.valid = false → flag e = false := by
  have member (row : Nat) (inside : row < bitmap.entries.length) (p : Entry → Bool) :
      (bitmap.entries[row]?).any p = p bitmap.entries[row] := by simp [inside]
  constructor
  · intro same e here null
    obtain ⟨row, inside, rfl⟩ := List.getElem_of_mem here
    by_contra set
    have selected : row ∈ dispatchSelect bitmap.entries := by
      rw [dispatchSelect, List.mem_filter, member row inside]
      exact ⟨List.mem_range.mpr inside, by simpa using set⟩
    rw [same, trueRows, List.mem_filter, member row inside, isTrue, null] at selected
    cases selected.2
  · intro clear
    rw [dispatchSelect, trueRows, bitmap.whole]
    refine List.filter_congr fun row inside => ?_
    have inside' : row < bitmap.entries.length := by
      rw [bitmap.whole]
      exact List.mem_range.mp inside
    rw [member row inside', member row inside', isTrue]
    cases valid : bitmap.entries[row].valid with
    | true => simp
    | false => simp [clear _ (List.getElem_mem inside') valid]

theorem trueRows_empty : [] = trueRows bitmap ↔ ∀ e ∈ bitmap.entries, isTrue e = false := by
  rw [eq_comm, trueRows, List.filter_eq_nil_iff]
  constructor
  · intro none e here
    obtain ⟨row, inside, rfl⟩ := List.getElem_of_mem here
    have := none row (List.mem_range.mpr (by rwa [← bitmap.whole]))
    simpa [inside] using this
  · intro none row inside
    have inside' : row < bitmap.entries.length := by
      rw [bitmap.whole]
      exact List.mem_range.mp inside
    simp [inside', none _ (List.getElem_mem inside')]

/-- When the selection is the rows at which the filter is TRUE: an executed filter must have
no set flag under a NULL, one that is skipped no row that is TRUE. -/
theorem selects_iff : Selects r bitmap (select r filter bitmap) ↔
    ∀ e ∈ bitmap.entries,
      if skipped r.columns filter then isTrue e = false else e.valid = false → flag e = false := by
  rw [select]
  by_cases skip : skipped r.columns filter = true
  · simp only [skip, if_true, ← trueRows_empty]
    have within : ∀ row ∈ ([] : List Nat), row < r.rowCount := nofun
    obtain ⟨counts, rows⟩ := handleMaterializeRowIDs_rows within
    constructor
    · exact Selects.rowIds
    · exact fun rowIds => ⟨rowIds, counts, rows⟩
  · simp only [skip, Bool.false_eq_true, if_false, ← dispatchSelect_iff]
    obtain ⟨counts, rows⟩ := handleMaterializeRowIDs_rows (dispatchSelect_within bitmap)
    constructor
    · exact Selects.rowIds
    · exact fun rowIds => ⟨rowIds, counts, rows⟩

end Selection

section Witness

/-- One nullable column of a boolean: NULL over a set byte. -/
def nullable : Column where
  type := .boolean
  entries := some [⟨[1], false⟩]
  columnLength := 1
  rowIds := none
  numBytes := 1
  isUnique := false
  long := by rintro _ ⟨⟩; rfl
  inside := by rintro _ _ _ ⟨⟩

def oneNull : Relation where
  columns := [nullable]
  rowCount := 1
  some := List.cons_ne_nil _ _
  even := fun c member _ => by rw [List.mem_singleton.mp member]; rfl
  empty := fun c member null => by rw [List.mem_singleton.mp member] at null; cases null
  measured := fun c member string => by rw [List.mem_singleton.mp member] at string; cases string

/-- What the reference to the column evaluates to. -/
def ownBitmap : Bitmap oneNull := ⟨[⟨[1], false⟩], rfl⟩

/-- The row whose filter is NULL is selected. -/
theorem null_selected : ¬ Selects oneNull ownBitmap (select oneNull (.reference 0) ownBitmap) := by
  intro selects
  exact absurd selects.rowIds (by decide)

end Witness

end FilterSelection
