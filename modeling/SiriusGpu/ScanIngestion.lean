import Mathlib
import SiriusGpu.ByteBuffers
import SiriusGpu.TableScan
import SiriusGpu.GpuColumns
import SiriusGpu.FallibleMaps

/-!
# The ingestion of a table

The loops of `GetDataDuckDB` and `ScanDataDuckDB` at the level of bytes. A first pass
over the chunks that DuckDB delivers adds up how many bytes every column and its
validity mask need. A second pass over the collected chunks copies them into buffers
of these sizes, at positions that advance with every chunk: the data by strings or by
whole vectors, the offsets by rows, the mask by words of 64 rows.

The collection packs rows into full vectors, as DuckDB does. A write past the end of
a buffer is an error here; whether the cache has room for the buffers is not asked.
-/

namespace ScanIngestion

open BufferManager ByteBuffers ColumnFormat
open TableScan (validityMaskSize)
open GpuColumns (getMaskBytesSize)
open FallibleMaps (mapM_ok)

abbrev Bytes := List UInt8

def STANDARD_VECTOR_SIZE : Nat := 2048

/-- A flattened vector: the payload of its rows, and its validity mask if it has one. -/
structure FlatVector where
  payload : List Bytes
  validity : Option (List (BitVec 64))
  entries : ∀ words, validity = some words → (payload.length + 63) / 64 ≤ words.length

def FlatVector.rowIsValid (v : FlatVector) (row : Nat) : Bool :=
  match v.validity with
  | none => true
  | some words => (words.getD (row / 64) 0).getLsbD (row % 64)

def FlatVector.cells (v : FlatVector) : List Cell :=
  v.payload.mapIdx fun row bytes => ⟨v.rowIsValid row, bytes⟩

structure Chunk where
  size : Nat
  data : Nat → FlatVector
  sizes : ∀ col, (data col).payload.length = size

def Chunk.empty : Chunk := ⟨0, fun _ => ⟨[], none, nofun⟩, fun _ => rfl⟩

/-- All chunks but the last are full. -/
def Full : List Nat → Prop
  | [] => True
  | [last] => last ≤ STANDARD_VECTOR_SIZE
  | size :: next :: rest => size = STANDARD_VECTOR_SIZE ∧ Full (next :: rest)

/-- The columns of a scan, of types for which columns can be created on the GPU. -/
structure Scan where
  columns : Nat
  scannedType : Nat → LogicalType
  columnType : Nat → GPUColumnType
  converts : ∀ col, convertLogicalTypeToColumnType (scannedType col) = some (columnType col)
  alreadyCached : Nat → Bool

/-- The chunks of a table before the empty one that ends them. -/
structure Delivery (scan : Scan) where
  chunks : List Chunk
  full : Full (chunks.map Chunk.size)
  nonempty : ∀ chunk ∈ chunks, chunk.size ≠ 0
  widths : ∀ chunk ∈ chunks, ∀ col < scan.columns, scan.scannedType col ≠ .varchar →
    ∀ bytes ∈ (chunk.data col).payload, bytes.length = typeIdSize (scan.scannedType col)

def getChunkDataByteSize (type : LogicalType) (cardinality : Nat) : Nat :=
  cardinality * typeIdSize type

/-! ## The first pass -/

section Sizes

/-- `column_size` and `mask_size` of a column. -/
structure Sizes where
  column : Nat
  mask : Nat

variable (scan : Scan)

def countColumn (type : LogicalType) (size : Nat) (v : FlatVector) (sizes : Sizes) : Sizes where
  column :=
    if type = .varchar then
      v.cells.foldl (fun total cell => total + (slot type cell).length) sizes.column
    else sizes.column + getChunkDataByteSize type size
  mask := sizes.mask + validityMaskSize size

def countChunk (chunk : Chunk) (sizes : Nat → Sizes) : Nat → Sizes := fun col =>
  if col < scan.columns then
    countColumn (scan.scannedType col) chunk.size (chunk.data col) (sizes col)
  else sizes col

/-- The loop ends after an empty chunk. -/
def countChunks : List Chunk → (Nat → Sizes) → Nat → Sizes
  | [], sizes => countChunk scan Chunk.empty sizes
  | chunk :: rest, sizes =>
      if 0 < chunk.size then countChunks rest (countChunk scan chunk sizes)
      else countChunk scan chunk sizes

/-- The sizes with those of the masks rounded up to 64 bytes. -/
def roundMask (sizes : Sizes) : Sizes := { sizes with mask := 64 * ((sizes.mask + 63) / 64) }

def collectSizes (delivered : List Chunk) (col : Nat) : Sizes :=
  roundMask (countChunks scan delivered (fun _ => ⟨0, 0⟩) col)

end Sizes

/-! ## The second pass -/

section Conversion

/-- The host buffers of a column with the positions in them. -/
structure Column where
  data : Bytes
  tmp : Nat
  offset : List Nat
  mask : Bytes
  tmpMask : Nat

/-- What fresh host memory holds. -/
structure Fresh where
  data : Nat → UInt8
  offset : Nat → Nat

def allocColumn (type : LogicalType) (sizes : Sizes) (count : Nat) (fresh : Fresh) : Column where
  data := (List.range sizes.column).map fresh.data
  tmp := 0
  offset := if type = .varchar then ((List.range (count + 1)).map fresh.offset).set 0 0 else []
  mask := List.replicate sizes.mask 0
  tmpMask := 0

def checked {α : Type} (result : Option α) : Except String α :=
  match result with
  | some a => .ok a
  | none => .error "write outside a buffer"

def copyString (place : Nat) (column : Column) (currString : Bytes) : Except String Column := do
  let data ← checked (memcpy column.data column.tmp currString)
  let offset ← checked (if place + 1 < column.offset.length then
    some (column.offset.set (place + 1) (column.offset.getD place 0 + currString.length)) else none)
  .ok { column with data := data, offset := offset, tmp := column.tmp + currString.length }

/-- The loop over the rows of a vector of strings; `place` is `start_idx + row`. -/
def copyStrings : Nat → List Bytes → Column → Except String Column
  | _, [], column => .ok column
  | place, currString :: rest, column => do
      let column ← copyString place column currString
      copyStrings (place + 1) rest column

def copyFixed (type : LogicalType) (size : Nat) (v : FlatVector) (column : Column) :
    Except String Column := do
  let bytes := getChunkDataByteSize type size
  let data ← checked (memcpy column.data column.tmp (v.payload.flatten.take bytes))
  .ok { column with data := data, tmp := column.tmp + bytes }

/-- The bytes of the validity mask; without one all bits are set. -/
def maskBytes (size : Nat) (v : FlatVector) : Bytes :=
  match v.validity with
  | none => List.replicate (validityMaskSize size) 0xFF
  | some words => (words.flatMap wordBytes).take (validityMaskSize size)

def copyMask (size : Nat) (v : FlatVector) (column : Column) : Except String Column := do
  let mask ← checked (memcpy column.mask column.tmpMask (maskBytes size v))
  .ok { column with mask := mask, tmpMask := column.tmpMask + validityMaskSize size }

def copyData (type : LogicalType) (startIdx size : Nat) (v : FlatVector) (column : Column) :
    Except String Column :=
  if type = .varchar then copyStrings startIdx (v.cells.map (slot type)) column
  else copyFixed type size v column

def scanColumn (type : LogicalType) (startIdx size : Nat) (v : FlatVector) (column : Column) :
    Except String Column := do
  let column ← copyData type startIdx size v column
  copyMask size v column

variable (scan : Scan)

/-- The loop over the columns of a chunk. -/
def scanChunk (startIdx : Nat) (chunk : Chunk) (columns : Nat → Column) :
    Except String (Nat → Column) :=
  (List.range scan.columns).foldlM (fun columns col =>
    if scan.alreadyCached col then .ok columns
    else do
      let column ← scanColumn (scan.scannedType col) startIdx chunk.size (chunk.data col)
        (columns col)
      .ok (Function.update columns col column)) columns

def scanChunks : Nat → List Chunk → (Nat → Column) → Except String (Nat → Column)
  | startIdx, [], columns => scanChunk scan startIdx Chunk.empty columns
  | startIdx, chunk :: rest, columns => do
      let columns ← scanChunk scan startIdx chunk columns
      if 0 < chunk.size then scanChunks (startIdx + chunk.size) rest columns else .ok columns

/-- A column of the cache, in device buffers. -/
structure Loaded where
  type : GPUColumnType
  data : Bytes
  offset : List Nat
  mask : Bytes
  length : Nat

def copyToDevice (col : Nat) (sizes : Sizes) (count : Nat) (column : Column) :
    Except String Loaded :=
  if scan.scannedType col = .varchar ∧ sizes.column ≠ column.offset.getD count 0 then
    .error "Column size mismatch"
  else .ok {
    type := scan.columnType col
    data := column.data.take sizes.column
    offset := column.offset.take (count + 1)
    mask := column.mask.take sizes.mask
    length := count }

def rowCount (chunks : List Chunk) : Nat := (chunks.map Chunk.size).sum

def scanDataDuckDB (sizes : Nat → Sizes) (fresh : Nat → Fresh) (collected : List Chunk) :
    Except String (List (Option Loaded)) := do
  let count := rowCount collected
  let columns ← scanChunks scan 0 collected fun col =>
    allocColumn (scan.scannedType col) (sizes col) count (fresh col)
  (List.range scan.columns).mapM fun col =>
    if scan.alreadyCached col then .ok none
    else (copyToDevice scan col (sizes col) count (columns col)).map some

/-- Both passes. -/
def getDataDuckDB (fresh : Nat → Fresh) (delivered collected : List Chunk) :
    Except String (List (Option Loaded)) :=
  scanDataDuckDB scan (collectSizes scan delivered) fresh collected

end Conversion

/-! ## What the buffers should decode to -/

section Decoding

variable {scan : Scan}

/-- The values of a column, `none` for NULL. -/
def rowValues (chunks : List Chunk) (col : Nat) : List (Option Bytes) :=
  chunks.flatMap fun chunk => (chunk.data col).cells.map Cell.value

def Delivery.values (delivery : Delivery scan) (col : Nat) : List (Option Bytes) :=
  rowValues delivery.chunks col

/-- Where the value of a row starts. -/
def Loaded.start (loaded : Loaded) (row : Nat) : Nat :=
  if loaded.type = .varchar then loaded.offset.getD row 0 else row * getColumnTypeSize loaded.type

/-- Validity bit and bytes of every row are those of the value, and the mask is not longer
than the columns' own functions take it to be. -/
structure Decodes (loaded : Loaded) (values : List (Option Bytes)) : Prop where
  length : loaded.length = values.length
  mask : loaded.mask.length ≤ getMaskBytesSize values.length
  rows : ∀ row value, values[row]? = some value → bit loaded.mask row = value.isSome ∧
    ∀ bytes, value = some bytes →
      slice loaded.data (loaded.start row) (loaded.start (row + 1)) = bytes

end Decoding

/-! ## What the passes see of a column -/

section Contents

/-- The bytes that the conversion copies for the rows of some chunks. -/
def slots (type : LogicalType) (chunks : List Chunk) (col : Nat) : List Bytes :=
  chunks.flatMap fun chunk => (chunk.data col).cells.map (slot type)

/-- The bytes of their masks. -/
def maskData (chunks : List Chunk) (col : Nat) : Bytes :=
  chunks.flatMap fun chunk => maskBytes chunk.size (chunk.data col)

@[simp] theorem cells_length (v : FlatVector) : v.cells.length = v.payload.length := by
  simp [FlatVector.cells]

theorem slots_append (type : LogicalType) (chunks rest : List Chunk) (col : Nat) :
    slots type (chunks ++ rest) col = slots type chunks col ++ slots type rest col :=
  List.flatMap_append

theorem maskData_append (chunks rest : List Chunk) (col : Nat) :
    maskData (chunks ++ rest) col = maskData chunks col ++ maskData rest col :=
  List.flatMap_append

theorem slots_length (type : LogicalType) (chunks : List Chunk) (col : Nat) :
    (slots type chunks col).length = rowCount chunks := by
  simp only [slots, List.length_flatMap, List.length_map, cells_length, Chunk.sizes, rowCount]

theorem rowCount_append (chunks rest : List Chunk) :
    rowCount (chunks ++ rest) = rowCount chunks + rowCount rest := by
  simp [rowCount]

/-- Every row of a value's slot is known from the value alone. -/
theorem slot_varchar (cell : Cell) : slot .varchar cell = cell.value.getD nullString := by
  obtain ⟨valid, bytes⟩ := cell
  cases valid <;> simp [slot, Cell.value]

theorem slot_fixed {type : LogicalType} (fixed : type ≠ .varchar) (cell : Cell) :
    slot type cell = cell.bytes := by
  simp [slot, fixed]

/-- The slots of a column of fixed width are the payload of its vectors. -/
theorem slots_fixed {type : LogicalType} (fixed : type ≠ .varchar) (v : FlatVector) :
    v.cells.map (slot type) = v.payload := by
  refine List.ext_getElem (by simp) fun i _ _ => ?_
  simp [FlatVector.cells, slot_fixed fixed]

theorem flatten_length {width : Nat} {pieces : List Bytes}
    (widths : ∀ piece ∈ pieces, piece.length = width) :
    pieces.flatten.length = pieces.length * width := by
  have all := take_flatten_length pieces widths (Nat.le_refl _)
  rwa [List.take_length] at all

variable {scan : Scan} (delivery : Delivery scan) {col : Nat}

theorem widths_slots (inRange : col < scan.columns) (fixed : scan.scannedType col ≠ .varchar) :
    ∀ bytes ∈ slots (scan.scannedType col) delivery.chunks col,
      bytes.length = typeIdSize (scan.scannedType col) := by
  intro bytes member
  obtain ⟨chunk, within, here⟩ := List.mem_flatMap.mp member
  rw [slots_fixed fixed] at here
  exact delivery.widths chunk within col inRange fixed bytes here

theorem values_length (col : Nat) : (delivery.values col).length = rowCount delivery.chunks := by
  simp only [Delivery.values, rowValues, List.length_flatMap, List.length_map, cells_length,
    Chunk.sizes, rowCount]

/-- Two deliveries of the same values have columns of the same size. -/
theorem slots_size (collected : Delivery scan) (inRange : col < scan.columns)
    (same : collected.values col = delivery.values col) :
    (slots (scan.scannedType col) collected.chunks col).flatten.length =
      (slots (scan.scannedType col) delivery.chunks col).flatten.length := by
  by_cases string : scan.scannedType col = .varchar
  · have read (other : Delivery scan) : slots .varchar other.chunks col =
        (other.values col).map fun value => value.getD nullString := by
      simp only [slots, Delivery.values, rowValues, List.map_flatMap, List.map_map]
      refine List.flatMap_congr fun chunk _ => List.map_congr_left fun cell _ => ?_
      exact slot_varchar cell
    rw [string, read collected, read delivery, same]
  · rw [flatten_length (widths_slots collected inRange string),
      flatten_length (widths_slots delivery inRange string), slots_length, slots_length,
      ← values_length collected col, ← values_length delivery col, same]

end Contents

/-! ## The sizes of the first pass -/

section FirstPass

variable {scan : Scan} {col : Nat}

theorem foldl_lengths (type : LogicalType) (cells : List Cell) (total : Nat) :
    cells.foldl (fun total cell => total + (slot type cell).length) total =
      total + (cells.map (slot type)).flatten.length := by
  induction cells generalizing total with
  | nil => rfl
  | cons cell cells ih =>
      rw [List.foldl_cons, ih, List.map_cons, List.flatten_cons, List.length_append,
        Nat.add_assoc]

/-- What a vector adds to the sizes of its column. -/
theorem countColumn_eq {type : LogicalType} {chunk : Chunk}
    (widths : type ≠ .varchar → ∀ bytes ∈ (chunk.data col).payload,
      bytes.length = typeIdSize type) (sizes : Sizes) :
    countColumn type chunk.size (chunk.data col) sizes =
      ⟨sizes.column + (slots type [chunk] col).flatten.length,
        sizes.mask + validityMaskSize chunk.size⟩ := by
  rw [countColumn, slots, List.flatMap_singleton]
  split
  case isTrue string => rw [foldl_lengths]
  case isFalse fixed =>
    rw [slots_fixed fixed, flatten_length (widths fixed), chunk.sizes, getChunkDataByteSize]

theorem countChunks_eq (inRange : col < scan.columns) {chunks : List Chunk}
    (nonempty : ∀ chunk ∈ chunks, chunk.size ≠ 0)
    (widths : ∀ chunk ∈ chunks, scan.scannedType col ≠ .varchar →
      ∀ bytes ∈ (chunk.data col).payload, bytes.length = typeIdSize (scan.scannedType col))
    (sizes : Nat → Sizes) :
    countChunks scan chunks sizes col =
      ⟨(sizes col).column + (slots (scan.scannedType col) chunks col).flatten.length,
        (sizes col).mask + (chunks.map fun chunk => validityMaskSize chunk.size).sum⟩ := by
  induction chunks generalizing sizes with
  | nil =>
      rw [countChunks, countChunk, if_pos inRange, countColumn_eq (by intro _ bytes h; cases h)]
      simp [slots, Chunk.empty, FlatVector.cells, validityMaskSize]
  | cons chunk rest ih =>
      have some : 0 < chunk.size := Nat.pos_of_ne_zero (nonempty chunk List.mem_cons_self)
      rw [countChunks, if_pos some, ih (fun c h => nonempty c (List.mem_cons_of_mem _ h))
        (fun c h => widths c (List.mem_cons_of_mem _ h)), countChunk, if_pos inRange,
        countColumn_eq (widths chunk List.mem_cons_self)]
      have joined := slots_append (scan.scannedType col) [chunk] rest col
      rw [List.singleton_append] at joined
      rw [joined, List.flatten_append, List.length_append, List.map_cons, List.sum_cons]
      simp only [Nat.add_assoc]

/-- The masks of full chunks leave no gaps. -/
theorem full_masks {sizes : List Nat} (full : Full sizes) :
    (sizes.map validityMaskSize).sum = validityMaskSize sizes.sum := by
  induction sizes with
  | nil => rfl
  | cons size rest ih =>
      cases rest with
      | nil => simp
      | cons next rest =>
          obtain ⟨rfl, full⟩ := full
          have total : (STANDARD_VECTOR_SIZE :: next :: rest).sum =
              STANDARD_VECTOR_SIZE + (next :: rest).sum := List.sum_cons
          rw [List.map_cons, List.sum_cons, ih full, total]
          simp only [validityMaskSize, STANDARD_VECTOR_SIZE]
          omega

theorem mask_size (delivery : Delivery scan) :
    64 * ((validityMaskSize (rowCount delivery.chunks) + 63) / 64) =
      getMaskBytesSize (rowCount delivery.chunks) := by
  simp only [validityMaskSize, getMaskBytesSize]
  omega

/-- The sizes that the first pass collects. -/
theorem collectSizes_eq (delivery : Delivery scan) (inRange : col < scan.columns) :
    collectSizes scan delivery.chunks col =
      ⟨(slots (scan.scannedType col) delivery.chunks col).flatten.length,
        getMaskBytesSize (rowCount delivery.chunks)⟩ := by
  have masks := full_masks delivery.full
  rw [List.map_map] at masks
  rw [collectSizes, countChunks_eq inRange delivery.nonempty
    (fun chunk member => delivery.widths chunk member col inRange), roundMask]
  simp only [Nat.zero_add]
  rw [← mask_size, rowCount, ← masks]
  rfl

end FirstPass

/-! ## The buffers of the second pass -/

section SecondPass

variable {type : LogicalType} {sizes : Sizes} {count : Nat} {column : Column} {col : Nat}

/-- The buffers of strings after some of them. -/
structure Strings (sizes : Sizes) (count : Nat) (pieces : List Bytes) (column : Column) : Prop where
  dataLength : column.data.length = sizes.column
  data : Written column.data column.tmp pieces.flatten
  offsetLength : column.offset.length = count + 1
  offset : Written column.offset (pieces.length + 1) (offsets 0 pieces)

theorem copyString_ok {pieces : List Bytes} {currString : Bytes}
    (strings : Strings sizes count pieces column)
    (bytes : (pieces ++ [currString]).flatten.length ≤ sizes.column)
    (rows : pieces.length < count) :
    ∃ after, copyString pieces.length column currString = .ok after ∧
      Strings sizes count (pieces ++ [currString]) after ∧
      after.mask = column.mask ∧ after.tmpMask = column.tmpMask := by
  have written := strings.data.length
  have joined : (pieces ++ [currString]).flatten = pieces.flatten ++ currString := by simp
  rw [joined, List.length_append] at bytes
  obtain ⟨data, copied, length, dataWritten⟩ := strings.data.memcpy
    (show column.tmp + currString.length ≤ column.data.length by
      rw [strings.dataLength]; omega)
  have room : pieces.length + 1 < column.offset.length := by
    rw [strings.offsetLength]
    omega
  have last : column.offset.getD pieces.length 0 = pieces.flatten.length := by
    rw [strings.offset.getD (Nat.lt_succ_self _), offsets_last, Nat.zero_add]
  obtain ⟨offsetLength, offset⟩ := strings.offset.set room
    (pieces.flatten.length + currString.length)
  refine ⟨{ column with
    data := data
    offset := column.offset.set (pieces.length + 1) (pieces.flatten.length + currString.length)
    tmp := column.tmp + currString.length }, ?_, ?_, rfl, rfl⟩
  · rw [copyString, copied, if_pos room, last]
    rfl
  · constructor
    · exact length.trans strings.dataLength
    · rw [joined]
      exact dataWritten
    · exact offsetLength.trans strings.offsetLength
    · rw [List.length_append, List.length_singleton, offsets_append, Nat.zero_add]
      exact offset

theorem copyStrings_ok {pieces rest : List Bytes} (strings : Strings sizes count pieces column)
    (bytes : (pieces ++ rest).flatten.length ≤ sizes.column)
    (rows : pieces.length + rest.length ≤ count) :
    ∃ after, copyStrings pieces.length rest column = .ok after ∧
      Strings sizes count (pieces ++ rest) after ∧
      after.mask = column.mask ∧ after.tmpMask = column.tmpMask := by
  induction rest generalizing pieces column with
  | nil =>
      rw [List.append_nil]
      exact ⟨column, rfl, strings, rfl, rfl⟩
  | cons currString rest ih =>
      rw [List.append_cons] at bytes ⊢
      rw [List.length_cons] at rows
      have prefix' : (pieces ++ [currString]).flatten.length ≤ sizes.column := by
        rw [List.flatten_append, List.length_append] at bytes
        omega
      obtain ⟨next, copied, strings, mask, tmpMask⟩ :=
        copyString_ok strings prefix' (by omega)
      have length : (pieces ++ [currString]).length = pieces.length + 1 := by simp
      obtain ⟨after, ran, strings, mask', tmpMask'⟩ := ih strings bytes (by omega)
      rw [length] at ran
      refine ⟨after, ?_, strings, mask'.trans mask, tmpMask'.trans tmpMask⟩
      rw [copyStrings, copied]
      exact ran

/-- The buffers of a column after some chunks. -/
structure Filled (type : LogicalType) (sizes : Sizes) (count : Nat) (col : Nat)
    (chunks : List Chunk) (column : Column) : Prop where
  dataLength : column.data.length = sizes.column
  data : Written column.data column.tmp (slots type chunks col).flatten
  maskLength : column.mask.length = sizes.mask
  mask : Written column.mask column.tmpMask (maskData chunks col)
  offsetLength : type = .varchar → column.offset.length = count + 1
  offset : type = .varchar →
    Written column.offset (rowCount chunks + 1) (offsets 0 (slots type chunks col))

theorem allocColumn_filled (type : LogicalType) (sizes : Sizes) (count col : Nat) (fresh : Fresh) :
    Filled type sizes count col [] (allocColumn type sizes count fresh) := by
  constructor
  · simp [allocColumn]
  · exact written_start _
  · simp [allocColumn]
  · exact written_start _
  · intro string
    simp [allocColumn, string]
  · intro string
    refine ⟨by simp [allocColumn, string, rowCount], ?_⟩
    simp [allocColumn, string, rowCount, slots, offsets, List.range_succ_eq_map]

theorem maskBytes_length (chunk : Chunk) (col : Nat) :
    (maskBytes chunk.size (chunk.data col)).length = validityMaskSize chunk.size := by
  rw [maskBytes]
  cases mask : (chunk.data col).validity with
  | none => simp
  | some words =>
      have enough := (chunk.data col).entries words mask
      rw [chunk.sizes] at enough
      simp only
      rw [List.length_take, words_length, Nat.min_eq_left]
      simp only [validityMaskSize]
      omega

/-- A chunk for which there is room is copied behind those before it. -/
theorem scanColumn_ok {chunks : List Chunk} {chunk : Chunk}
    (filled : Filled type sizes count col chunks column)
    (widths : type ≠ .varchar → ∀ bytes ∈ (chunk.data col).payload,
      bytes.length = typeIdSize type)
    (bytes : (slots type (chunks ++ [chunk]) col).flatten.length ≤ sizes.column)
    (masks : (maskData (chunks ++ [chunk]) col).length ≤ sizes.mask)
    (rows : rowCount (chunks ++ [chunk]) ≤ count) :
    ∃ after, scanColumn type (rowCount chunks) chunk.size (chunk.data col) column = .ok after ∧
      Filled type sizes count col (chunks ++ [chunk]) after := by
  have joined := slots_append type chunks [chunk] col
  have joinedMask := maskData_append chunks [chunk] col
  have here : slots type [chunk] col = (chunk.data col).cells.map (slot type) :=
    List.flatMap_singleton _ _
  have hereMask : maskData [chunk] col = maskBytes chunk.size (chunk.data col) :=
    List.flatMap_singleton _ _
  rw [here] at joined
  rw [hereMask] at joinedMask
  have joinedRows := rowCount_append chunks [chunk]
  have size : rowCount [chunk] = chunk.size := by simp [rowCount]
  rw [size] at joinedRows
  rw [joined] at bytes
  rw [joinedMask, List.length_append, filled.mask.length, maskBytes_length] at masks
  -- the data, by rows or at once
  have data : ∃ next,
      copyData type (rowCount chunks) chunk.size (chunk.data col) column = .ok next ∧
      next.data.length = sizes.column ∧
      Written next.data next.tmp (slots type (chunks ++ [chunk]) col).flatten ∧
      (type = .varchar → next.offset.length = count + 1 ∧ Written next.offset
        (rowCount (chunks ++ [chunk]) + 1) (offsets 0 (slots type (chunks ++ [chunk]) col))) ∧
      next.mask = column.mask ∧ next.tmpMask = column.tmpMask := by
    by_cases string : type = .varchar
    · have length := slots_length type chunks col
      have strings : Strings sizes count (slots type chunks col) column := by
        refine ⟨filled.dataLength, filled.data, filled.offsetLength string, ?_⟩
        rw [length]
        exact filled.offset string
      obtain ⟨next, ran, strings, mask, tmpMask⟩ := copyStrings_ok strings bytes (by
        rw [length, List.length_map, cells_length, chunk.sizes, ← joinedRows]
        exact rows)
      rw [length] at ran
      rw [copyData, if_pos string, joined]
      refine ⟨next, ran, strings.dataLength, strings.data, fun _ => ⟨strings.offsetLength, ?_⟩,
        mask, tmpMask⟩
      have total := slots_length type (chunks ++ [chunk]) col
      rw [joined] at total
      rw [← total]
      exact strings.offset
    · have payload := slots_fixed string (chunk.data col)
      have length : (chunk.data col).payload.flatten.length =
          getChunkDataByteSize type chunk.size := by
        rw [flatten_length (widths string), chunk.sizes, getChunkDataByteSize]
      rw [joined, payload, List.flatten_append]
      rw [payload, List.flatten_append, List.length_append, filled.data.length] at bytes
      obtain ⟨after, copied, same, written⟩ := filled.data.memcpy
        (show column.tmp + (chunk.data col).payload.flatten.length ≤ column.data.length by
          rw [filled.dataLength]; exact bytes)
      rw [copyData, if_neg string]
      refine ⟨{ column with
          data := after, tmp := column.tmp + getChunkDataByteSize type chunk.size },
        ?_, same.trans filled.dataLength, ?_, fun h => absurd h string, rfl, rfl⟩
      · rw [copyFixed, List.take_of_length_le (Nat.le_of_eq length), copied]
        rfl
      · rw [← length]
        exact written
  obtain ⟨next, ran, dataLength, dataWritten, offset, mask, tmpMask⟩ := data
  obtain ⟨after, copied, same, written⟩ := filled.mask.memcpy
    (show column.tmpMask + (maskBytes chunk.size (chunk.data col)).length ≤ column.mask.length by
      rw [filled.maskLength, maskBytes_length]; exact masks)
  refine ⟨{ next with
    mask := after, tmpMask := column.tmpMask + validityMaskSize chunk.size }, ?_, ?_⟩
  · rw [scanColumn, ran]
    simp only [bind, Except.bind, copyMask, mask, tmpMask, copied, checked]
  · constructor
    · exact dataLength
    · exact dataWritten
    · exact same.trans filled.maskLength
    · rw [joinedMask, ← maskBytes_length chunk col]
      exact written
    · exact fun string => (offset string).1
    · exact fun string => (offset string).2

variable {scan : Scan} {columnSizes : Nat → Sizes}

/-- The buffers of all columns that are not cached after some chunks. -/
def AllFilled (scan : Scan) (columnSizes : Nat → Sizes) (count : Nat) (chunks : List Chunk)
    (columns : Nat → Column) : Prop :=
  ∀ col < scan.columns, scan.alreadyCached col = false →
    Filled (scan.scannedType col) (columnSizes col) count col chunks (columns col)

/-- The buffers have room for some chunks. -/
structure Room (scan : Scan) (columnSizes : Nat → Sizes) (count : Nat) (chunks : List Chunk) :
    Prop where
  bytes : ∀ col < scan.columns,
    (slots (scan.scannedType col) chunks col).flatten.length ≤ (columnSizes col).column
  masks : ∀ col < scan.columns, (maskData chunks col).length ≤ (columnSizes col).mask
  rows : rowCount chunks ≤ count

theorem Room.before {chunks rest : List Chunk}
    (room : Room scan columnSizes count (chunks ++ rest)) : Room scan columnSizes count chunks := by
  refine ⟨fun col inRange => ?_, fun col inRange => ?_, ?_⟩
  · have all := room.bytes col inRange
    rw [slots_append, List.flatten_append, List.length_append] at all
    omega
  · have all := room.masks col inRange
    rw [maskData_append, List.length_append] at all
    omega
  · have all := room.rows
    rw [rowCount_append] at all
    omega

/-- The vectors of a chunk have the widths of the columns. -/
def Fits (scan : Scan) (chunk : Chunk) : Prop :=
  ∀ col < scan.columns, scan.scannedType col ≠ .varchar →
    ∀ bytes ∈ (chunk.data col).payload, bytes.length = typeIdSize (scan.scannedType col)

/-- The loop over the columns of a chunk; the columns are on their own. -/
theorem scanChunk_ok {chunks : List Chunk} {chunk : Chunk} {columns : Nat → Column}
    (filled : AllFilled scan columnSizes count chunks columns) (fits : Fits scan chunk)
    (room : Room scan columnSizes count (chunks ++ [chunk])) :
    ∃ after, scanChunk scan (rowCount chunks) chunk columns = .ok after ∧
      AllFilled scan columnSizes count (chunks ++ [chunk]) after := by
  suffices each : ∀ n ≤ scan.columns, ∃ after,
      (List.range n).foldlM (fun columns col =>
        if scan.alreadyCached col then .ok columns
        else do
          let column ← scanColumn (scan.scannedType col) (rowCount chunks) chunk.size
            (chunk.data col) (columns col)
          .ok (Function.update columns col column)) columns = Except.ok (ε := String) after ∧
      (∀ col < n, scan.alreadyCached col = false →
        Filled (scan.scannedType col) (columnSizes col) count col (chunks ++ [chunk])
          (after col)) ∧
      ∀ col, n ≤ col → after col = columns col by
    obtain ⟨after, ran, done, -⟩ := each scan.columns (Nat.le_refl _)
    exact ⟨after, ran, done⟩
  intro n few
  induction n with
  | zero => exact ⟨columns, rfl, fun col h => absurd h (Nat.not_lt_zero col), fun _ _ => rfl⟩
  | succ n ih =>
      obtain ⟨before, ran, done, same⟩ := ih (Nat.le_of_succ_le few)
      rw [List.range_succ, List.foldlM_append, ran]
      cases cached : scan.alreadyCached n with
      | true =>
          refine ⟨before, by simp [bind, Except.bind, cached, pure, Except.pure], ?_, ?_⟩
          · intro col h uncached
            refine done col (Nat.lt_of_le_of_ne (Nat.le_of_lt_succ h) ?_) uncached
            rintro rfl
            rw [cached] at uncached
            cases uncached
          · exact fun col h => same col (Nat.le_of_succ_le h)
      | false =>
          have old := filled n few cached
          rw [← same n (Nat.le_refl n)] at old
          obtain ⟨column, copied, new⟩ := scanColumn_ok old (fits n few) (room.bytes n few)
            (room.masks n few) room.rows
          refine ⟨Function.update before n column,
            by simp [bind, Except.bind, cached, copied, pure, Except.pure], ?_, ?_⟩
          · intro col h uncached
            by_cases here : col = n
            · subst here
              rw [Function.update_self]
              exact new
            · rw [Function.update_of_ne here]
              exact done col (Nat.lt_of_le_of_ne (Nat.le_of_lt_succ h) here) uncached
          · intro col h
            rw [Function.update_of_ne (Nat.ne_of_gt h)]
            exact same col (Nat.le_of_succ_le h)

/-- All chunks, and the empty one at the end. -/
theorem scanChunks_ok {chunks rest : List Chunk} {columns : Nat → Column}
    (filled : AllFilled scan columnSizes count chunks columns)
    (nonempty : ∀ chunk ∈ rest, chunk.size ≠ 0) (fits : ∀ chunk ∈ rest, Fits scan chunk)
    (room : Room scan columnSizes count (chunks ++ rest ++ [Chunk.empty])) :
    ∃ after, scanChunks scan (rowCount chunks) rest columns = .ok after ∧
      AllFilled scan columnSizes count (chunks ++ rest ++ [Chunk.empty]) after := by
  induction rest generalizing chunks columns with
  | nil =>
      rw [List.append_nil] at room ⊢
      exact scanChunk_ok filled (fun col _ _ bytes member => nomatch member) room
  | cons chunk rest ih =>
      have shape : chunks ++ chunk :: rest = chunks ++ [chunk] ++ rest := List.append_cons _ _ _
      rw [shape] at room ⊢
      obtain ⟨next, ran, filled⟩ :=
        scanChunk_ok filled (fits chunk List.mem_cons_self) room.before.before
      have some : 0 < chunk.size := Nat.pos_of_ne_zero (nonempty chunk List.mem_cons_self)
      have start : rowCount (chunks ++ [chunk]) = rowCount chunks + chunk.size := by
        rw [rowCount_append]
        simp [rowCount]
      obtain ⟨after, ran', filled⟩ := ih filled
        (fun c member => nonempty c (List.mem_cons_of_mem _ member))
        (fun c member => fits c (List.mem_cons_of_mem _ member)) room
      refine ⟨after, ?_, filled⟩
      rw [scanChunks, ran]
      simp only [bind, Except.bind]
      rw [if_pos some, ← start]
      exact ran'

end SecondPass

/-! ## Reading the buffers back -/

section RoundTrip

variable {scan : Scan} {col : Nat}

theorem bit_maskBytes {chunk : Chunk} {row : Nat} (within : row < chunk.size) :
    bit (maskBytes chunk.size (chunk.data col)) row = (chunk.data col).rowIsValid row := by
  have covered : row < 8 * validityMaskSize chunk.size := by
    simp only [validityMaskSize]
    omega
  rw [maskBytes, FlatVector.rowIsValid]
  cases mask : (chunk.data col).validity with
  | none => exact bit_replicate covered
  | some words =>
      have enough := (chunk.data col).entries words mask
      rw [chunk.sizes] at enough
      simp only
      rw [bit_take covered, bit_words words (by omega)]

/-- The bits of a mask are the validity of the rows. -/
theorem bit_maskData {chunks : List Chunk} (full : Full (chunks.map Chunk.size)) {row : Nat}
    {value : Option Bytes} (here : (rowValues chunks col)[row]? = some value) :
    bit (maskData chunks col) row = value.isSome := by
  induction chunks generalizing row with
  | nil => cases here
  | cons chunk rest ih =>
      have size : ((chunk.data col).cells.map Cell.value).length = chunk.size := by
        rw [List.length_map, cells_length, chunk.sizes]
      have maskSize := maskBytes_length chunk col
      rw [rowValues, List.flatMap_cons] at here
      rw [maskData, List.flatMap_cons]
      by_cases within : row < chunk.size
      · have covered : row < 8 * (maskBytes chunk.size (chunk.data col)).length := by
          rw [maskSize]
          simp only [validityMaskSize]
          omega
        rw [List.getElem?_append_left (by rwa [size])] at here
        rw [bit_append_left covered, bit_maskBytes within]
        obtain ⟨bytes, payload⟩ : ∃ bytes, (chunk.data col).payload[row]? = some bytes :=
          ⟨_, List.getElem?_eq_getElem (by rwa [chunk.sizes])⟩
        simp only [FlatVector.cells, List.getElem?_map, List.getElem?_mapIdx, payload,
          Option.map_some, Option.some.injEq, Cell.value] at here
        rw [← here]
        cases (chunk.data col).rowIsValid row <;> rfl
      · rw [List.getElem?_append_right (by rw [size]; omega), size] at here
        cases rest with
        | nil => cases here
        | cons next rest =>
            -- only the last chunk may leave a gap in the mask
            obtain ⟨whole, full⟩ := full
            have apart : 8 * (maskBytes chunk.size (chunk.data col)).length = chunk.size := by
              rw [maskSize, whole]
              rfl
            rw [bit_append_right (by omega), apart]
            exact ih full here

/-- The slot of a row with a value holds the bytes of the value. -/
theorem slots_of_values {type : LogicalType} {chunks : List Chunk} {row : Nat} {bytes : Bytes}
    (here : (rowValues chunks col)[row]? = some (some bytes)) :
    (slots type chunks col)[row]? = some bytes := by
  have cells : slots type chunks col =
      (chunks.flatMap fun chunk => (chunk.data col).cells).map (slot type) := by
    simp only [slots, List.map_flatMap]
  have values : rowValues chunks col =
      (chunks.flatMap fun chunk => (chunk.data col).cells).map Cell.value := by
    simp only [rowValues, List.map_flatMap]
  rw [values, List.getElem?_map, Option.map_eq_some_iff] at here
  obtain ⟨cell, there, value⟩ := here
  rw [cells, List.getElem?_map, there, Option.map_some]
  obtain ⟨valid, payload⟩ := cell
  cases valid with
  | false => simp [Cell.value] at value
  | true => simpa [Cell.value, slot] using value

theorem columnType_varchar (scan : Scan) (col : Nat) :
    scan.columnType col = .varchar ↔ scan.scannedType col = .varchar := by
  have converts := scan.converts col
  revert converts
  generalize scan.columnType col = columnType
  cases scan.scannedType col <;> simp only [convertLogicalTypeToColumnType] <;> grind

/-- The columns on the GPU are read at the places that the conversion has written. -/
theorem slice_slots (scan : Scan) (col : Nat) {pieces : List Bytes} {loaded : Loaded}
    {row : Nat} {bytes : Bytes} (type : loaded.type = scan.columnType col)
    (data : loaded.data = pieces.flatten)
    (offset : scan.scannedType col = .varchar → loaded.offset = offsets 0 pieces)
    (widths : scan.scannedType col ≠ .varchar →
      ∀ piece ∈ pieces, piece.length = typeIdSize (scan.scannedType col))
    (here : pieces[row]? = some bytes) :
    slice loaded.data (loaded.start row) (loaded.start (row + 1)) = bytes := by
  obtain ⟨within, rfl⟩ := List.getElem?_eq_some_iff.mp here
  have onGpu := columnType_varchar scan col
  rw [data, Loaded.start, Loaded.start, type]
  by_cases string : scan.scannedType col = .varchar
  · rw [if_pos (onGpu.mpr string), if_pos (onGpu.mpr string), offset string,
      offsets_get 0 pieces (Nat.le_of_lt within), offsets_get 0 pieces within, Nat.zero_add,
      Nat.zero_add, slice_flatten pieces within]
  · have fixed : scan.columnType col ≠ .varchar := fun h => string (onGpu.mp h)
    rw [if_neg fixed, if_neg fixed, getColumnTypeSize_convert (scan.converts col) string,
      slice_multiple pieces (widths string) within]

theorem slots_empty (type : LogicalType) (chunks : List Chunk) (col : Nat) :
    slots type (chunks ++ [Chunk.empty]) col = slots type chunks col := by
  rw [slots_append]
  simp [slots, Chunk.empty, FlatVector.cells]

theorem maskData_empty (chunks : List Chunk) (col : Nat) :
    maskData (chunks ++ [Chunk.empty]) col = maskData chunks col := by
  rw [maskData_append]
  simp [maskData, Chunk.empty, maskBytes, validityMaskSize]

theorem rowCount_empty (chunks : List Chunk) :
    rowCount (chunks ++ [Chunk.empty]) = rowCount chunks := by
  rw [rowCount_append]
  simp [rowCount, Chunk.empty]

theorem maskData_length (delivery : Delivery scan) (col : Nat) :
    (maskData delivery.chunks col).length = validityMaskSize (rowCount delivery.chunks) := by
  have masks := full_masks delivery.full
  rw [List.map_map] at masks
  rw [maskData, List.length_flatMap, rowCount, ← masks]
  simp only [maskBytes_length]
  rfl

theorem mask_covered (count : Nat) : validityMaskSize count ≤ getMaskBytesSize count := by
  simp only [validityMaskSize, getMaskBytesSize]
  omega

/-- What is loaded of a column whose buffers are filled. -/
theorem copyToDevice_ok (delivery : Delivery scan) (inRange : col < scan.columns)
    {sizes : Sizes} {column : Column}
    (filled : Filled (scan.scannedType col) sizes (rowCount delivery.chunks) col
      (delivery.chunks ++ [Chunk.empty]) column)
    (bytes : sizes.column =
      (slots (scan.scannedType col) delivery.chunks col).flatten.length)
    (mask : sizes.mask = getMaskBytesSize (rowCount delivery.chunks)) :
    ∃ loaded, copyToDevice scan col sizes (rowCount delivery.chunks) column = .ok loaded ∧
      Decodes loaded (delivery.values col) := by
  have data := filled.data
  have offset := filled.offset
  have bits := filled.mask
  rw [slots_empty] at data offset
  rw [rowCount_empty] at offset
  rw [maskData_empty] at bits
  have whole := data.full (by rw [filled.dataLength, bytes, data.length])
  have offsets' (string : scan.scannedType col = .varchar) :=
    (offset string).full (filled.offsetLength string).symm
  have size := slots_length (scan.scannedType col) delivery.chunks col
  have agrees : ¬ (scan.scannedType col = .varchar ∧
      sizes.column ≠ column.offset.getD (rowCount delivery.chunks) 0) := by
    rintro ⟨string, mismatch⟩
    rw [offsets' string, ← size, offsets_last, Nat.zero_add] at mismatch
    exact mismatch bytes
  refine ⟨_, if_neg agrees, ?_, ?_, ?_⟩
  · exact (values_length delivery col).symm
  · rw [values_length delivery, ← mask, List.length_take]
    exact Nat.min_le_left _ _
  · intro row value here
    have within : row < rowCount delivery.chunks := by
      rw [← values_length delivery]
      exact (List.getElem?_eq_some_iff.mp here).1
    constructor
    · have covered : row < 8 * column.tmpMask := by
        rw [← bits.length, maskData_length]
        simp only [validityMaskSize]
        omega
      have padded : column.tmpMask ≤ sizes.mask := by
        rw [← bits.length, maskData_length, mask]
        exact mask_covered _
      rw [bit_take (by omega), ← bit_take covered, bits.taken]
      exact bit_maskData delivery.full here
    · rintro bytes' rfl
      refine slice_slots scan col rfl ?_ (fun string => ?_) (widths_slots delivery inRange)
        (slots_of_values here)
      · rw [List.take_of_length_le (Nat.le_of_eq filled.dataLength), whole]
      · rw [List.take_of_length_le (Nat.le_of_eq (filled.offsetLength string)), offsets' string]

/-- The sizes of the first pass are those that the second one writes. -/
theorem collectSizes_room (delivered collected : Delivery scan)
    (same : ∀ col < scan.columns, collected.values col = delivered.values col)
    (inRange : col < scan.columns) :
    collectSizes scan delivered.chunks col =
      ⟨(slots (scan.scannedType col) collected.chunks col).flatten.length,
        getMaskBytesSize (rowCount collected.chunks)⟩ := by
  have rows : rowCount collected.chunks = rowCount delivered.chunks := by
    rw [← values_length collected col, ← values_length delivered col, same col inRange]
  rw [collectSizes_eq delivered inRange, rows,
    slots_size delivered collected inRange (same col inRange)]

/-- All columns that are not cached yet are read back from the buffers as they were delivered;
no write misses them. -/
theorem scan_round_trip (scan : Scan) (delivered collected : Delivery scan) (fresh : Nat → Fresh)
    (same : ∀ col < scan.columns, collected.values col = delivered.values col) :
    ∃ loaded, getDataDuckDB scan fresh delivered.chunks collected.chunks = .ok loaded ∧
      loaded.length = scan.columns ∧
      ∀ col < scan.columns,
        (collectSizes scan delivered.chunks col).mask ≤
          getMaskBytesSize (delivered.values col).length ∧
        (scan.alreadyCached col = false → ∃ column, loaded[col]? = some (some column) ∧
          Decodes column (delivered.values col)) := by
  have sizes (col : Nat) (inRange : col < scan.columns) :=
    collectSizes_room delivered collected same inRange
  have start : AllFilled scan (collectSizes scan delivered.chunks) (rowCount collected.chunks) []
      fun col => allocColumn (scan.scannedType col) (collectSizes scan delivered.chunks col)
        (rowCount collected.chunks) (fresh col) :=
    fun col _ _ => allocColumn_filled _ _ _ _ _
  have room : Room scan (collectSizes scan delivered.chunks) (rowCount collected.chunks)
      ([] ++ collected.chunks ++ [Chunk.empty]) := by
    constructor
    · intro col inRange
      simp only [List.nil_append, slots_empty, sizes col inRange, Nat.le_refl]
    · intro col inRange
      rw [List.nil_append, maskData_empty, maskData_length, sizes col inRange]
      exact mask_covered _
    · simp only [List.nil_append, rowCount_empty, Nat.le_refl]
  obtain ⟨columns, ran, filled⟩ := scanChunks_ok start collected.nonempty
    (fun chunk member col inRange => collected.widths chunk member col inRange) room
  rw [List.nil_append] at filled
  have copied : ∀ col ∈ List.range scan.columns, ∃ column,
      (if scan.alreadyCached col then .ok none
        else (copyToDevice scan col (collectSizes scan delivered.chunks col)
          (rowCount collected.chunks) (columns col)).map some) =
        (.ok column : Except String (Option Loaded)) ∧
      (scan.alreadyCached col = false →
        ∃ loaded, column = some loaded ∧ Decodes loaded (delivered.values col)) := by
    intro col member
    have inRange := List.mem_range.mp member
    cases cached : scan.alreadyCached col with
    | true => exact ⟨none, rfl, nofun⟩
    | false =>
        obtain ⟨loaded, copied, decodes⟩ := copyToDevice_ok collected inRange
          (filled col inRange cached) (by rw [sizes col inRange]) (by rw [sizes col inRange])
        rw [same col inRange] at decodes
        refine ⟨some loaded, ?_, fun _ => ⟨loaded, rfl, decodes⟩⟩
        rw [if_neg Bool.false_ne_true, copied]
        rfl
  obtain ⟨results, mapped, all⟩ := mapM_ok copied
  have length : results.length = scan.columns := by rw [← all.length_eq, List.length_range]
  refine ⟨results, ?_, length, ?_⟩
  · rw [getDataDuckDB, scanDataDuckDB]
    change scanChunks scan 0 _ _ = _ at ran
    simp only [bind, Except.bind, ran]
    exact mapped
  · intro col inRange
    constructor
    · simp only [sizes col inRange, ← values_length collected col, same col inRange, Nat.le_refl]
    · intro uncached
      have at' := all.get (by rwa [List.length_range]) (by rwa [length])
      rw [List.get_eq_getElem, List.getElem_range] at at'
      obtain ⟨column, here, decodes⟩ := at' uncached
      refine ⟨column, ?_, decodes⟩
      rw [List.getElem?_eq_getElem (by rwa [length])]
      exact congrArg some here

def strings : FlatVector := ⟨[[0x68, 0x69], []], some [1], by rintro words ⟨⟩; decide⟩

def numbers : FlatVector := ⟨[[7, 0, 0, 0], [8, 0, 0, 0]], none, nofun⟩

def twoColumns : Scan where
  columns := 2
  scannedType col := if col = 0 then .integer else .varchar
  columnType col := if col = 0 then .int32 else .varchar
  converts col := by by_cases first : col = 0 <;> simp [first, convertLogicalTypeToColumnType]
  alreadyCached _ := false

def twoRows : Chunk where
  size := 2
  data col := if col = 0 then numbers else strings
  sizes col := by by_cases first : col = 0 <;> simp [first, numbers, strings]

def oneChunk : Delivery twoColumns where
  chunks := [twoRows]
  full := show 2 ≤ STANDARD_VECTOR_SIZE by decide
  nonempty := by decide
  widths := by
    intro chunk member col inRange fixed bytes inside
    obtain rfl := List.mem_singleton.mp member
    have first : col = 0 := by
      by_contra other
      exact fixed (if_neg other)
    subst first
    revert bytes
    decide

/-- The second string is NULL. -/
theorem two_columns_round_trip :
    ∃ loaded, getDataDuckDB twoColumns (fun _ => ⟨fun _ => 0xAA, fun _ => 5⟩) [twoRows] [twoRows] =
        .ok loaded ∧
      ∃ column, loaded[1]? = some (some column) ∧ Decodes column [some [0x68, 0x69], none] := by
  obtain ⟨loaded, ran, -, columns⟩ :=
    scan_round_trip twoColumns oneChunk oneChunk (fun _ => ⟨fun _ => 0xAA, fun _ => 5⟩)
      fun _ _ => rfl
  obtain ⟨column, here, decodes⟩ := (columns 1 (by decide)).2 rfl
  have values : oneChunk.values 1 = [some [0x68, 0x69], none] := by decide
  rw [values] at decodes
  exact ⟨loaded, ran, column, here, decodes⟩

end RoundTrip

end ScanIngestion
