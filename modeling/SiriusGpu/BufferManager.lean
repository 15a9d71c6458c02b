import SiriusGpu.ThrowingState
import SiriusGpu.BufferArena
import SiriusGpu.ColumnFormat
import Mathlib.Logic.Function.Basic

/-!
# The buffer manager

Cached columns live in a caching region on the GPU that spills into one of pinned
host memory. Both are bump-allocated and freed only as a whole. The table map
names what is cached. Besides what the code checks itself, a step that goes
through the driver or through DuckDB may throw for reasons of its own: a run is
given a number of such steps that succeed.
-/

namespace BufferManager

open ThrowingState BufferArena ColumnFormat

section Types

abbrev Name := List Char

def toUpper (name : Name) : Name := name.map Char.toUpper

inductive LogicalType
  | smallint | integer | bigint | hugeint | float | double | boolean | date
  | timestampSec | timestampMs | timestamp | timestampNs | varchar
  | decimal (width : Nat)
  | other
  deriving DecidableEq, Repr

inductive GPUColumnType
  | int16 | int32 | int64 | int128 | float32 | float64 | boolean | date
  | timestampSec | timestampMs | timestampUs | timestampNs | varchar
  | decimal (width : Nat)
  deriving DecidableEq, Repr

def convertLogicalTypeToColumnType : LogicalType → Option GPUColumnType
  | .smallint => some .int16
  | .integer => some .int32
  | .bigint => some .int64
  | .hugeint => some .int128
  | .float => some .float32
  | .double => some .float64
  | .boolean => some .boolean
  | .date => some .date
  | .timestampSec => some .timestampSec
  | .timestampMs => some .timestampMs
  | .timestamp => some .timestampUs
  | .timestampNs => some .timestampNs
  | .varchar => some .varchar
  | .decimal width => some (.decimal width)
  | .other => none

def decimalTypeSize (width : Nat) : Nat :=
  if width ≤ 4 then 2 else if width ≤ 9 then 4 else if width ≤ 18 then 8 else 16

/-- `GetTypeIdSize` of the type DuckDB stores a value of fixed width in. -/
def typeIdSize : LogicalType → Nat
  | .smallint => 2
  | .integer | .float | .date => 4
  | .bigint | .double | .timestampSec | .timestampMs | .timestamp | .timestampNs => 8
  | .hugeint => 16
  | .boolean => 1
  | .decimal width => decimalTypeSize width
  | .varchar | .other => 16

def getColumnTypeSize : GPUColumnType → Nat
  | .int16 => 2
  | .int32 | .float32 | .date => 4
  | .int64 | .float64 | .timestampSec | .timestampMs | .timestampUs | .timestampNs => 8
  | .int128 => 16
  | .boolean => 1
  | .varchar => 128
  | .decimal width => decimalTypeSize width

/-- A value keeps its width on the GPU. -/
theorem getColumnTypeSize_convert {type : LogicalType} {gpuType : GPUColumnType}
    (h : convertLogicalTypeToColumnType type = some gpuType) (fixed : type ≠ .varchar) :
    getColumnTypeSize gpuType = typeIdSize type := by
  cases type <;> simp_all [convertLogicalTypeToColumnType] <;> subst h <;> rfl

end Types

section Tables

/-- An entry of a DuckDB vector; the payload of an invalid one is left as it is. -/
structure Cell where
  valid : Bool
  bytes : List UInt8
  deriving DecidableEq, Repr

def Cell.value (cell : Cell) : Option (List UInt8) := if cell.valid then some cell.bytes else none

structure TableColumn where
  name : Name
  type : LogicalType
  cells : List Cell
  deriving DecidableEq, Repr

structure Table where
  name : Name
  columns : List TableColumn
  rowCount : Nat
  lengths : ∀ c ∈ columns, c.cells.length = rowCount
  widths : ∀ c ∈ columns, c.type ≠ .varchar → ∀ cell ∈ c.cells,
    cell.bytes.length = typeIdSize c.type
  named : ∀ c ∈ columns, c.name ≠ []
  distinct : (columns.map fun c => toUpper c.name).Nodup
  deriving DecidableEq

/-- What `ToString` gives for a NULL string. -/
def nullString : List UInt8 := [78, 85, 76, 76]

/-- The bytes the conversion copies for an entry. -/
def slot (type : LogicalType) (cell : Cell) : List UInt8 :=
  if type = .varchar ∧ cell.valid = false then nullString else cell.bytes

def TableColumn.values (c : TableColumn) : List (Option (List UInt8)) := c.cells.map Cell.value

def TableColumn.slots (c : TableColumn) : List (List UInt8) := c.cells.map (slot c.type)

end Tables

section State

inductive Region
  | gpuCache | cpuCache
  deriving DecidableEq, Repr

abbrev Buffer := Range Region

inductive Content
  | bytes (bytes : List UInt8)
  | words (words : List Nat)
  | bits (bits : List Bool)
  deriving DecidableEq, Repr

structure GPUColumn where
  columnLength : Nat
  type : GPUColumnType
  data : Option Buffer
  offset : Option Buffer
  validityMask : Option Buffer
  rowIds : Option (List Nat)
  deriving DecidableEq, Repr

/-- One place of the parallel vectors `column_names` and `columns` of a cached table. -/
structure Slot where
  name : Name
  column : Option GPUColumn
  deriving DecidableEq, Repr

structure Config where
  cacheSizePerGpu : Nat
  availableGpuCacheSize : Nat
  processingSizePerCpu : Nat
  available : availableGpuCacheSize ≤ cacheSizePerGpu

/-- The tables with cached columns, under their upper-cased names. -/
abbrev Tables := Name → Option (List Slot)

/-- `credit` counts the steps outside this code that will still succeed, if any is to fail;
`handedOut` is the history of allocations in the caching region, the latest first. -/
structure State where
  gpuCachingPointer : Nat
  cpuCachingPointer : Nat
  cpuProcessingPointer : Nat
  tables : Tables
  memory : Memory Region Content
  credit : Option Nat
  handedOut : List Buffer

inductive Exception
  | external
  | invalidInput (message : String)
  | internal (message : String)
  | notImplemented (message : String)
  | catalog
  deriving DecidableEq, Repr

abbrev Action (α : Type) := Proc State Exception α

def initial : State := ⟨0, 0, 0, fun _ => none, [], none, []⟩

end State

section Operations

/-- A step outside this code. -/
def outside : Action Unit := fun s =>
  match s.credit with
  | some 0 => (.error .external, s)
  | some (n + 1) => (.ok (), { s with credit := some n })
  | none => (.ok (), s)

def padded (bytes : Nat) : Nat := bytes + (256 - bytes % 256)

/-- `customCudaMalloc` in the caching region. -/
def customCudaMalloc (cfg : Config) (bytes : Nat) : Action Buffer := fun s =>
  let alloc := padded bytes
  if s.gpuCachingPointer + alloc ≤ cfg.availableGpuCacheSize then
    let buffer := ⟨.gpuCache, s.gpuCachingPointer, alloc⟩
    (.ok buffer, { s with
      gpuCachingPointer := s.gpuCachingPointer + alloc, handedOut := buffer :: s.handedOut })
  else if s.cpuCachingPointer + alloc > cfg.cacheSizePerGpu - cfg.availableGpuCacheSize then
    (.error (.invalidInput "Out of caching memory"), s)
  else
    let buffer := ⟨.cpuCache, s.cpuCachingPointer, alloc⟩
    (.ok buffer, { s with
      cpuCachingPointer := s.cpuCachingPointer + alloc, handedOut := buffer :: s.handedOut })

/-- The pointer moves before the bound is checked. -/
def customCudaHostAlloc (cfg : Config) (bytes : Nat) : Action Unit := fun s =>
  let stop := s.cpuProcessingPointer + bytes
  let s' := { s with cpuProcessingPointer := stop }
  if cfg.processingSizePerCpu ≤ stop then (.error (.invalidInput "Out of CPU memory"), s')
  else (.ok (), s')

def callCudaMemcpyHostToDevice (buffer : Buffer) (content : Content) : Action Unit := do
  outside
  Proc.update fun s => { s with memory := write s.memory buffer content }

def Slot.reset (_ : Slot) : Slot := ⟨[], none⟩

def clearNames (tables : Tables) : Tables := fun name => (tables name).map (List.map Slot.reset)

def resetCache : Action Unit := Proc.update fun s =>
  { s with gpuCachingPointer := 0, cpuCachingPointer := 0, tables := clearNames s.tables }

def Slot.resetRowIds (slot : Slot) : Slot :=
  { slot with column := slot.column.map fun column => { column with rowIds := none } }

/-- At the end of a query; the processing region is emptied. -/
def resetBuffer (s : State) : State :=
  { s with
    cpuProcessingPointer := 0
    tables := fun name => (s.tables name).map (List.map Slot.resetRowIds) }

def checkIfColumnCached (tables : Tables) (tableName columnName : Name) : Bool :=
  match tables (toUpper tableName) with
  | none => false
  | some slots => (slots.find? (·.name = toUpper columnName)).isSome

def State.setTable (s : State) (upTableName : Name) (slots : List Slot) : State :=
  { s with tables := Function.update s.tables upTableName (some slots) }

def createTable (upTableName : Name) (columnCount : Nat) : Action Unit := Proc.update fun s =>
  match s.tables upTableName with
  | some _ => s
  | none => s.setTable upTableName (List.replicate columnCount ⟨[], none⟩)

def emptyColumn (type : GPUColumnType) : GPUColumn := ⟨0, type, none, none, none, none⟩

def outOfBounds : Exception := .internal "Attempted to access index within vector"

/-- Indexing the vectors of a table beyond their size throws. -/
def createColumn (upTableName upColumnName : Name) (type : GPUColumnType) (columnId : Nat) :
    Action Unit := fun s =>
  match s.tables upTableName with
  | none => (.error outOfBounds, s)
  | some slots =>
    if columnId < slots.length then
      (.ok (), s.setTable upTableName (slots.set columnId ⟨upColumnName, some (emptyColumn type)⟩))
    else (.error outOfBounds, s)

/-- The tables of the default schema. The catalog finds them whatever the case of the name,
so they are kept under the upper-cased one. -/
abbrev Catalog := Name → Option Table

def createTableAndColumnInGPU (catalog : Catalog) (tableName columnName : Name) :
    Action Unit := do
  outside
  match catalog (toUpper tableName) with
  | none => Proc.raise .catalog
  | some table =>
    match table.columns.findIdx? (·.name = columnName) with
    | none => Proc.raise (.invalidInput "Column does not exists")
    | some columnId => do
      createTable (toUpper tableName) table.columns.length
      match (table.columns[columnId]?).bind (convertLogicalTypeToColumnType ·.type) with
      | none => Proc.raise (.invalidInput
          "Unsupported duckdb column type in convertLogicalTypeToColumnType")
      | some type => createColumn (toUpper tableName) (toUpper columnName) type columnId

end Operations

end BufferManager
