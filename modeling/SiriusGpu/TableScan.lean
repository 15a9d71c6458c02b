import Mathlib
import SiriusGpu.BufferManager

/-!
# Table scans

A scan first sees to it that its columns are cached. It registers the names of
those that are not, converts and copies their data, and only then sets the
registered columns to what has been copied. When the cache is full it is emptied
first and all columns of the scan are loaded.
-/

namespace TableScan

open ThrowingState BufferArena ColumnFormat BufferManager

section Model

/-- `chunks` are the sizes of the chunks DuckDB delivers; `unsetSize` is what the entries of a
row-id column, which are never set, add to the total. -/
structure Scan where
  table : Table
  columnIds : List (Fin table.columns.length)
  projectionIds : List (Fin columnIds.length)
  filterColumns : List (Fin columnIds.length)
  filterPrune : Bool
  chunks : List Nat
  unsetSize : Nat

def Scan.columns (scan : Scan) : List TableColumn := scan.columnIds.map scan.table.columns.get

def columnSize (c : TableColumn) : Nat :=
  if c.type = .varchar then (c.slots.map List.length).sum else typeIdSize c.type * c.cells.length

def validityMaskSize (count : Nat) : Nat := (count + 63) / 64 * 8

def Scan.maskSize (scan : Scan) : Nat := 64 * (((scan.chunks.map validityMaskSize).sum + 63) / 64)

def Scan.totalSize (scan : Scan) (columns : List TableColumn) : Nat :=
  (columns.map fun c => columnSize c + scan.maskSize).sum + scan.unsetSize

structure ColumnBuffers where
  data : Buffer
  mask : Buffer
  offset : Option Buffer
  deriving DecidableEq, Repr

def allocColumn (cfg : Config) (scan : Scan) (c : TableColumn) : Action ColumnBuffers := do
  customCudaHostAlloc cfg (columnSize c)
  let data ← customCudaMalloc cfg (columnSize c)
  customCudaHostAlloc cfg scan.maskSize
  let mask ← customCudaMalloc cfg scan.maskSize
  if c.type = .varchar then do
    customCudaHostAlloc cfg (8 * (scan.table.rowCount + 1))
    let offset ← customCudaMalloc cfg (8 * (scan.table.rowCount + 1))
    pure ⟨data, mask, some offset⟩
  else pure ⟨data, mask, none⟩

def dataContent (c : TableColumn) : Content := .bytes c.slots.flatten

def offsetContent (c : TableColumn) : Content := .words (offsets 0 c.slots)

def maskContent (c : TableColumn) : Content := .bits (c.cells.map Cell.valid)

def copyColumn (scan : Scan) : TableColumn × ColumnBuffers → Action Unit
  | (c, ⟨data, mask, some offset⟩) =>
    if columnSize c ≠ (offsets 0 c.slots).getD scan.table.rowCount 0 then
      Proc.raise (.invalidInput "Column size mismatch")
    else do
      callCudaMemcpyHostToDevice data (dataContent c)
      callCudaMemcpyHostToDevice offset (offsetContent c)
      callCudaMemcpyHostToDevice mask (maskContent c)
  | (c, ⟨data, mask, none⟩) => do
    callCudaMemcpyHostToDevice data (dataContent c)
    callCudaMemcpyHostToDevice mask (maskContent c)

def loadedColumn (rowCount : Nat) (type : GPUColumnType) (b : ColumnBuffers) : GPUColumn :=
  ⟨rowCount, type, some b.data, b.offset, some b.mask, none⟩

/-- The registered column is set to what has been loaded. -/
def publishColumn (scan : Scan) : TableColumn × ColumnBuffers → Action Unit
  | (c, b) => fun s =>
    match s.tables (toUpper scan.table.name) with
    | none => (.error outOfBounds, s)
    | some slots =>
      match slots.findIdx? (·.name = toUpper c.name), convertLogicalTypeToColumnType c.type with
      | some idx, some type =>
        (.ok (), s.setTable (toUpper scan.table.name)
          (slots.set idx ⟨toUpper c.name, some (loadedColumn scan.table.rowCount type b)⟩))
      | _, _ => (.error (.invalidInput "Column not found"), s)

def scanDataDuckDB (cfg : Config) (scan : Scan) (columns : List TableColumn) : Action Unit := do
  -- the eight arrays of pointers
  Proc.each (fun _ => customCudaHostAlloc cfg (8 * scan.columns.length)) (List.range 8)
  let buffers ← Proc.collect (allocColumn cfg scan) columns
  Proc.each (fun _ => outside) scan.chunks
  Proc.each (copyColumn scan) (columns.zip buffers)
  Proc.each (publishColumn scan) (columns.zip buffers)

def createColumns (catalog : Catalog) (scan : Scan) (columns : List TableColumn) : Action Unit :=
  Proc.each (fun c => createTableAndColumnInGPU catalog scan.table.name c.name) columns

def Scan.uncached (scan : Scan) (tables : Tables) : List TableColumn :=
  scan.columns.filter fun c => !checkIfColumnCached tables scan.table.name c.name

/-- The data does not fit beside what is cached. -/
def cacheFull (cfg : Config) (scan : Scan) (columns : List TableColumn) (s : State) : Bool :=
  cfg.cacheSizePerGpu ≤ s.gpuCachingPointer + s.cpuCachingPointer + scan.totalSize columns

/-- The first part of `GetDataDuckDB`: which columns are to be loaded, after the cache has
been emptied if need be. -/
def makeRoom (cfg : Config) (scan : Scan) : Action (List TableColumn) := do
  let columns ← Proc.read fun s => scan.uncached s.tables
  if columns = [] then pure [] else do
    Proc.each (fun _ => outside) scan.chunks
    let full ← Proc.read (cacheFull cfg scan columns)
    if full then
      if cfg.cacheSizePerGpu < scan.totalSize columns then
        Proc.raise (.invalidInput
          "Total size of columns to be cached is greater than the cache size")
      else do
        resetCache
        pure scan.columns
    else pure columns

def getDataDuckDB (cfg : Config) (catalog : Catalog) (scan : Scan) : Action Unit := do
  let columns ← makeRoom cfg scan
  if columns = [] then pure () else do
    createColumns catalog scan columns
    scanDataDuckDB cfg scan columns

abbrev GPUIntermediateRelation := List GPUColumn

/-- The columns of a table that a scan passes on, and in which order. -/
def Scan.outputIds (scan : Scan) : List (Fin scan.table.columns.length) :=
  if scan.filterPrune ∧ scan.projectionIds ≠ [] then
    scan.projectionIds.map scan.columnIds.get
  else scan.columnIds

def clearRowIds (slots : List Slot) (id : Nat) : List Slot := slots.modify id Slot.resetRowIds

/-- `selected` is what the filters pushed into the scan select, if there are any. -/
def getData (scan : Scan) (selected : Option (List Nat)) : Action GPUIntermediateRelation :=
  fun s =>
    match s.tables (toUpper scan.table.name) with
    | none => (.error (.invalidInput "Table not found"), s)
    | some slots =>
      if scan.columns.all (fun c => slots.any (·.name = toUpper c.name)) then
        let slots := (scan.filterColumns.map scan.columnIds.get).foldl
          (fun slots id => clearRowIds slots id.val) slots
        let output := scan.outputIds.mapM fun id => (slots[id.val]?).bind fun slot =>
          slot.column.map fun column => { column with rowIds := selected }
        (output.elim (.error outOfBounds) .ok, s.setTable (toUpper scan.table.name) slots)
      else (.error (.invalidInput "Column not found"), s)

end Model

end TableScan
