import SiriusGpu.CudfColumns
import Mathlib.Data.Nat.Digits.Lemmas
import Mathlib.Data.Rat.Cast.Order
import Mathlib.Tactic.Ring
import Mathlib.Tactic.Zify
import Mathlib.Tactic.Positivity

/-!
# Delivery of the result

The collector materializes the columns of a relation, copies them to the host and
cuts them into chunks of 2048 rows, which a query result hands out one by one. A
chunk keeps the planned types and points into the copies.
-/

namespace ResultCollector

open ThrowingState ColumnFormat GpuMemory GpuColumns Materialize CudfColumns

section Types

/-- The types of a plan; `other` is for those no GPU column is delivered as. -/
inductive LogicalType
  | smallint | integer | bigint | hugeint | uuid | float | double | boolean | date
  | timestampSec | timestampMs | timestamp | timestampNs
  | varchar
  | decimal (width scale : Nat)
  | other
  deriving DecidableEq, Repr

/-- Whether `InternalType()` is `INT128`. -/
def LogicalType.isInt128 : LogicalType → Bool
  | .hugeint | .uuid => true
  | .decimal width _ => 18 < width
  | _ => false

/-- The comparison of `id()`, which leaves width and scale of a decimal out. -/
def LogicalType.sameId : LogicalType → LogicalType → Bool
  | .decimal _ _, .decimal _ _ => true
  | a, b => a = b

def LogicalType.size : LogicalType → Nat
  | .smallint => 2
  | .integer | .date | .float => 4
  | .bigint | .timestampSec | .timestampMs | .timestamp | .timestampNs | .double => 8
  | .hugeint | .uuid | .varchar | .other => 16
  | .boolean => 1
  | .decimal width _ => decimalTypeSize width

def columnTypeToLogicalType : GPUColumnType → LogicalType
  | .int16 => .smallint
  | .int32 => .integer
  | .int64 => .bigint
  | .float32 => .float
  | .float64 => .double
  | .boolean => .boolean
  | .date => .date
  | .timestampSec => .timestampSec
  | .timestampMs => .timestampMs
  | .timestampUs => .timestamp
  | .timestampNs => .timestampNs
  | .varchar => .varchar
  | .int128 => .hugeint
  | .decimal width scale => .decimal width scale

end Types

section Values

/-- The number of little-endian bytes. -/
def unsigned (bytes : Bytes) : Nat := Nat.ofDigits 256 (bytes.map UInt8.toNat)

def signed (bytes : Bytes) : Int :=
  if 2 * unsigned bytes < 256 ^ bytes.length then unsigned bytes
  else unsigned bytes - 256 ^ bytes.length

theorem unsigned_lt (bytes : Bytes) : unsigned bytes < 256 ^ bytes.length := by
  have below := Nat.ofDigits_lt_base_pow_length (b := 256) (l := bytes.map UInt8.toNat)
    (by decide) fun digit member => by
      obtain ⟨byte, -, rfl⟩ := List.mem_map.mp member
      exact byte.toNat_lt
  simpa [unsigned] using below

theorem unsigned_zeros (bytes : Bytes) (k : Nat) :
    unsigned (bytes ++ List.replicate k 0) = unsigned bytes := by
  unfold unsigned
  rw [List.map_append, Nat.ofDigits_append, List.map_replicate]
  have zeros : Nat.ofDigits 256 (List.replicate k (UInt8.toNat 0)) = 0 := by
    induction k with
    | zero => rfl
    | succ k ih => rw [List.replicate_succ, Nat.ofDigits_cons, ih]; rfl
  rw [zeros, Nat.mul_zero, Nat.add_zero]

theorem signed_zeros (bytes : Bytes) {k : Nat} (more : k ≠ 0) :
    signed (bytes ++ List.replicate k 0) = unsigned bytes := by
  have below := unsigned_lt bytes
  have room : 2 * 256 ^ bytes.length ≤ 256 ^ (bytes.length + k) := by
    obtain ⟨k, rfl⟩ := Nat.exists_eq_succ_of_ne_zero more
    have positive : 0 < 256 ^ k := Nat.pow_pos (by decide)
    calc 2 * 256 ^ bytes.length ≤ 256 ^ bytes.length * (256 * 256 ^ k) := by nlinarith
      _ = 256 ^ (bytes.length + (k + 1)) := by rw [pow_add, pow_succ' 256 k]
  unfold signed
  rw [unsigned_zeros, List.length_append, List.length_replicate, if_pos (by omega)]

theorem signed_eq_unsigned_iff (bytes : Bytes) :
    (unsigned bytes : Int) = signed bytes ↔ 0 ≤ signed bytes := by
  have below : (unsigned bytes : Int) < 256 ^ bytes.length := by exact_mod_cast unsigned_lt bytes
  unfold signed
  by_cases small : 2 * unsigned bytes < 256 ^ bytes.length
  · simp [small]
  · rw [if_neg small]
    constructor
    · intro same
      omega
    · intro positive
      omega

theorem signed_range (bytes : Bytes) :
    -(256 ^ bytes.length : Int) ≤ 2 * signed bytes ∧
      2 * signed bytes < 256 ^ bytes.length := by
  have below : (unsigned bytes : Int) < 256 ^ bytes.length := by exact_mod_cast unsigned_lt bytes
  unfold signed
  by_cases small : 2 * unsigned bytes < 256 ^ bytes.length
  · rw [if_pos small]
    have small' : 2 * (unsigned bytes : Int) < 256 ^ bytes.length := by exact_mod_cast small
    omega
  · rw [if_neg small]
    have small' : (256 : Int) ^ bytes.length ≤ 2 * (unsigned bytes : Int) := by
      exact_mod_cast Nat.le_of_not_lt small
    omega

/-- The little-endian bytes of a number. -/
def bytesOf : Nat → Nat → Bytes
  | 0, _ => []
  | size + 1, n => UInt8.ofNat (n % 256) :: bytesOf size (n / 256)

@[simp] theorem bytesOf_length (size n : Nat) : (bytesOf size n).length = size := by
  induction size generalizing n with
  | zero => rfl
  | succ size ih => simp [bytesOf, ih]

theorem unsigned_bytesOf (size n : Nat) (small : n < 256 ^ size) :
    unsigned (bytesOf size n) = n := by
  induction size generalizing n with
  | zero =>
    obtain rfl : n = 0 := by simpa using small
    rfl
  | succ size ih =>
    have later := ih (n / 256) (by rw [pow_succ] at small; omega)
    have digit : (UInt8.ofNat (n % 256)).toNat = n % 256 :=
      UInt8.toNat_ofNat_of_lt' (Nat.mod_lt n (by decide))
    unfold unsigned at later ⊢
    rw [bytesOf, List.map_cons, Nat.ofDigits_cons, later, digit]
    omega

def encode (size : Nat) (y : Int) : Bytes := bytesOf size (y % 256 ^ size).toNat

theorem signed_encode (size : Nat) {y : Int} (low : -(256 ^ size : Int) ≤ 2 * y)
    (high : 2 * y < 256 ^ size) : signed (encode size y) = y := by
  have positive : (0 : Int) < 256 ^ size := by positivity
  have inside := Int.emod_nonneg y (ne_of_gt positive)
  have below := Int.emod_lt_of_pos y positive
  have small : (y % 256 ^ size).toNat < 256 ^ size := by
    zify
    rwa [Int.toNat_of_nonneg inside]
  have value : (unsigned (encode size y) : Int) = y % 256 ^ size := by
    rw [encode, unsigned_bytesOf _ _ small, Int.toNat_of_nonneg inside]
  unfold signed
  rw [encode, bytesOf_length, ← encode]
  by_cases negative : y < 0
  · have wrapped : y % 256 ^ size = y + 256 ^ size := by
      rw [← Int.add_emod_right]
      exact Int.emod_eq_of_lt (by omega) (by omega)
    have upper : ¬ 2 * unsigned (encode size y) < 256 ^ size := by
      zify
      omega
    rw [if_neg upper]
    omega
  · have same : y % 256 ^ size = y := Int.emod_eq_of_lt (by omega) (by omega)
    have lower : 2 * unsigned (encode size y) < 256 ^ size := by
      zify
      omega
    rw [if_pos lower]
    omega

/-- Numbers are compared as numbers, all else by its bytes; `undefined` is read where less
than a value is left. -/
inductive Value
  | number (q : ℚ)
  | bits (bytes : Bytes)
  | undefined
  deriving DecidableEq

def LogicalType.read (type : LogicalType) (bytes : Bytes) : Value :=
  match type with
  | .smallint | .integer | .bigint | .hugeint =>
    if bytes.length = type.size then .number (signed bytes) else .undefined
  | .decimal _ scale =>
    if bytes.length = type.size then .number (signed bytes / 10 ^ scale) else .undefined
  | .varchar => .bits bytes
  | _ => if bytes.length = type.size then .bits bytes else .undefined

/-- What the bytes of an entry denote in a column. -/
def valueOf (type : GPUColumnType) (bytes : Bytes) : Value :=
  (columnTypeToLogicalType type).read bytes

end Values

section Materialization

def finalMaterializeInternal (width : Nat) (c : GPUColumn) : Action GPUColumn :=
  match c.rowIds, c.dataWrapper.data with
  | some rowIds, some data => do
    let (materialized, outMask) ← materializeExpression width data rowIds c.rowIdCount
      c.dataWrapper.validityMask
    pure ((newColumn c.rowIdCount c.type (some materialized) outMask).setUnique c.isUnique)
  | some _, none => Proc.raise .fault
  | none, data =>
    pure ((newColumn c.columnLength c.type data c.dataWrapper.validityMask).setUnique c.isUnique)

def finalMaterializeString (c : GPUColumn) : Action GPUColumn :=
  match c.rowIds, c.dataWrapper.data, c.dataWrapper.offset with
  | some rowIds, some data, some offset => do
    let m ← materializeString data offset rowIds c.rowIdCount c.dataWrapper.validityMask
    pure ((newStringColumn c.rowIdCount .varchar (some m.result) (some m.resultOffset)
      m.resultBytes true m.outMask).setUnique c.isUnique)
  | some _, _, _ => Proc.raise .fault
  | none, data, offset =>
    pure ((newStringColumn c.columnLength c.type data offset c.dataWrapper.numBytes true
      c.dataWrapper.validityMask).setUnique c.isUnique)

def nullPointer : Exception := .internal "Attempted to dereference shared_ptr that is NULL!"

/-- A decimal of another size has no case: the column stays a null pointer, which the next
access reports. -/
def finalMaterialize (c : GPUColumn) : Action GPUColumn :=
  match c.type with
  | .int64 | .timestampSec | .timestampMs | .timestampUs | .timestampNs =>
    finalMaterializeInternal 8 c
  | .int32 | .date => finalMaterializeInternal 4 c
  | .int16 => finalMaterializeInternal 2 c
  | .float64 => finalMaterializeInternal 8 c
  | .float32 => finalMaterializeInternal 4 c
  | .boolean => finalMaterializeInternal 1 c
  | .varchar => finalMaterializeString c
  | .decimal width _ =>
    match decimalTypeSize width with
    | 4 => finalMaterializeInternal 4 c
    | 8 => finalMaterializeInternal 8 c
    | _ => Proc.raise nullPointer
  | .int128 => Proc.raise (.notImplemented "Unsupported sirius column type in `FinalMaterialize`")

/-- The types `FinalMaterialize` has a case for. -/
def finalMaterializable : GPUColumnType → Bool
  | .int128 => false
  | .decimal width _ => 4 < width ∧ width ≤ 18
  | _ => true

/-- The column with the mark `FinalMaterializeString` sets. -/
def marked (c : GPUColumn) : GPUColumn :=
  { c with dataWrapper := { c.dataWrapper with isStringData := true } }

variable {s s' : State} {c : GPUColumn}

theorem finalMaterializeInternal_eq {width : Nat} (nonempty : isEmptyColumn c = false) :
    finalMaterializeInternal width c = resolveTypeMaterializeExpression width (marked c) := by
  have nonempty' : isEmptyColumn (marked c) = false := nonempty
  have data : c.dataWrapper.data ≠ none := by
    intro missing
    simp [isEmptyColumn, missing] at nonempty
  obtain ⟨d, data⟩ := Option.ne_none_iff_exists'.mp data
  have data' : (marked c).dataWrapper.data = some d := data
  cases late : c.rowIds with
  | none =>
    have late' : (marked c).rowIds = none := late
    simp only [finalMaterializeInternal, resolveTypeMaterializeExpression, nonempty', late, late']
    rfl
  | some r =>
    have late' : (marked c).rowIds = some r := late
    simp only [finalMaterializeInternal, resolveTypeMaterializeExpression, nonempty', late, late',
      data, data']
    rfl

theorem finalMaterializeString_eq (string : c.type = .varchar)
    (nonempty : isEmptyColumn c = false) :
    finalMaterializeString c = resolveTypeMaterializeString (marked c) := by
  have nonempty' : isEmptyColumn (marked c) = false := nonempty
  have data : c.dataWrapper.data ≠ none := by
    intro missing
    simp [isEmptyColumn, missing] at nonempty
  obtain ⟨d, data⟩ := Option.ne_none_iff_exists'.mp data
  have data' : (marked c).dataWrapper.data = some d := data
  have string' : (marked c).type = .varchar := string
  cases late : c.rowIds with
  | none =>
    have late' : (marked c).rowIds = none := late
    simp only [finalMaterializeString, resolveTypeMaterializeString, nonempty', late, late']
    rfl
  | some r =>
    have late' : (marked c).rowIds = some r := late
    cases offset : c.dataWrapper.offset with
    | none =>
      have offset' : (marked c).dataWrapper.offset = none := offset
      simp only [finalMaterializeString, resolveTypeMaterializeString, nonempty', late, late',
        data, data', offset, offset']
      rfl
    | some o =>
      have offset' : (marked c).dataWrapper.offset = some o := offset
      simp only [finalMaterializeString, resolveTypeMaterializeString, nonempty', late, late',
        data, data', offset, offset', string']
      rfl

/-- For the types it has a case for, the final materialization is the materialization of the
marked column. -/
theorem finalMaterialize_eq (type : finalMaterializable c.type = true)
    (nonempty : isEmptyColumn c = false) :
    finalMaterialize c = handleMaterializeExpression (marked c) := by
  have type' : (marked c).type = c.type := rfl
  by_cases string : c.type = .varchar
  · have resolved : finalMaterialize c = finalMaterializeString c := by
      unfold finalMaterialize
      rw [string]
    have resolved' : handleMaterializeExpression (marked c) =
        resolveTypeMaterializeString (marked c) := by
      unfold handleMaterializeExpression
      rw [type', string]
    rw [resolved, resolved', finalMaterializeString_eq string nonempty]
  · have materialized : materializable c.type = true := by
      cases htype : c.type <;> simp_all [materializable, finalMaterializable]
    rw [handleMaterializeExpression_fixed (c := marked c) materialized string, type',
      ← finalMaterializeInternal_eq nonempty]
    unfold finalMaterialize
    cases htype : c.type with
    | decimal width scale =>
      have wide : ¬ width ≤ 4 := by
        simp only [finalMaterializable, htype, decide_eq_true_eq] at type
        omega
      have narrow : width ≤ 18 := by
        simp only [finalMaterializable, htype, decide_eq_true_eq] at type
        omega
      by_cases small : width ≤ 9
      · simp [getColumnTypeSize, decimalTypeSize, wide, small]
      · simp [getColumnTypeSize, decimalTypeSize, wide, small, narrow]
    | int128 => simp [finalMaterializable, htype] at type
    | varchar => exact absurd htype string
    | _ => rfl

theorem finalMaterialize_raise (type : finalMaterializable c.type = false) :
    ∃ e, finalMaterialize c = Proc.raise e := by
  unfold finalMaterialize
  cases htype : c.type with
  | decimal width scale =>
    simp only [finalMaterializable, htype, decide_eq_false_iff_not] at type
    by_cases tiny : width ≤ 4
    · exact ⟨_, by simp [decimalTypeSize, tiny]; rfl⟩
    · have wide : ¬ width ≤ 18 := by omega
      have wide' : ¬ width ≤ 9 := by omega
      exact ⟨_, by simp [decimalTypeSize, tiny, wide, wide']; rfl⟩
  | int128 => exact ⟨_, rfl⟩
  | _ => simp [finalMaterializable, htype] at type

end Materialization

section Host

/-- A column on the host: bytes of fixed width one behind the other, or strings. -/
inductive HostData
  | raw (bytes : Bytes)
  | strings (strings : List Bytes)
  deriving DecidableEq

structure HostColumn where
  type : GPUColumnType
  columnLength : Nat
  data : HostData
  mask : List MaskWord
  deriving DecidableEq

/-- What is left of the places reserved for the strings and the characters of all columns.
Past them a write is a fault. -/
structure Room where
  strings : Nat
  chars : Nat

def Room.Fits (needed room : Room) : Prop :=
  needed.strings ≤ room.strings ∧ needed.chars ≤ room.chars

def Room.spend (room needed : Room) : Room :=
  ⟨room.strings - needed.strings, room.chars - needed.chars⟩

/-- The reservation counts the columns as they come in, before their rows are gathered. -/
def reserve (relation : GPUIntermediateRelation) : Room where
  strings := ((relation.filter (·.type = .varchar)).map (·.dataWrapper.size)).sum
  chars := ((relation.filter (·.type = .varchar)).map (·.dataWrapper.numBytes)).sum

def loadData (c : GPUColumn) : Action Bytes :=
  match c.dataWrapper.data with
  | none => Proc.raise .fault
  | some d => load Content.asBytes d

def copyToHost (ptr : Option Handle) (size : Nat) : Action Bytes :=
  match ptr with
  | none => Proc.raise .fault
  | some d => do
    let bytes ← load Content.asBytes d
    if size ≤ bytes.length then pure (bytes.take size) else Proc.raise .fault

/-- `convert_int64_to_int128` and its siblings: what is above the value is set to zero. -/
def widen (width count : Nat) (bytes : Bytes) : Bytes :=
  ((List.range count).map fun i =>
    slice bytes (i * width) ((i + 1) * width) ++ List.replicate (16 - width) 0).flatten

def convertToInt128 (width : Nat) (c : GPUColumn) : Action Bytes := do
  let bytes ← copyToHost c.dataWrapper.data (c.columnLength * width)
  let temp ← customCudaMalloc (.bytes (widen width c.columnLength bytes))
  copyToHost (some temp) (c.columnLength * 16)

/-- `cudf::cast` between decimals of a size and a scale, for the bytes of one value. -/
abbrev DecimalCast := Nat → Nat → Nat → Nat → Bytes → Bytes

variable (cast : DecimalCast)

def castDecimal (width scale toWidth toScale : Nat) (c : GPUColumn) :
    Action (Bytes × GPUColumn) := do
  let size := decimalTypeSize width
  if size ≠ 16 ∨ scale ≠ toScale then do
    let view ← convertToCudfColumn c
    let bytes ← copyToHost view.dataWrapper.data (c.columnLength * size)
    let pieces := (List.range c.columnLength).map fun i =>
      cast size scale (decimalTypeSize toWidth) toScale
        (slice bytes (i * size) ((i + 1) * size))
    pure (pieces.flatten, view)
  else do
    let bytes ← copyToHost c.dataWrapper.data (c.columnLength * size)
    pure (bytes, c)

/-- The bytes of a column on the host, and the column as they are left to be read. -/
def copyColumn (planned : LogicalType) (c : GPUColumn) : Action (Bytes × GPUColumn) :=
  if planned.isInt128 then
    match c.type with
    | .int64 => do
      let bytes ← convertToInt128 8 c
      pure (bytes, c)
    | .int32 => do
      let bytes ← convertToInt128 4 c
      pure (bytes, c)
    | .int16 => do
      let bytes ← convertToInt128 2 c
      pure (bytes, c)
    | .decimal width scale =>
      match planned with
      | .decimal toWidth toScale => do
        let (bytes, c) ← castDecimal cast width scale toWidth toScale c
        pure (bytes, { c with dataWrapper := { c.dataWrapper with
          type := .decimal toWidth toScale } })
      | _ => Proc.raise (.internal
          "Destiation type is not decimal when performing INT128 (physical type) conversion for decimal,")
    | _ => Proc.raise
        (.notImplemented "Unsupported siris column type for INT128 conversion")
  else do
    let bytes ← copyToHost c.dataWrapper.data (c.columnLength * getColumnTypeSize c.type)
    pure (bytes, c)

def copyMask (c : GPUColumn) : Action (List MaskWord) :=
  match c.dataWrapper.validityMask with
  | none =>
    pure (List.replicate (getMaskBytesSize c.columnLength / 4) (BitVec.allOnes 32))
  | some h => do
    let words ← load Content.asBits h
    pure (words.take (c.dataWrapper.maskBytes / 4))

/-- `create_cpu_strings`: a short string lies in its `string_t`, a long one is pointed to
among the characters on the host. -/
def cpuString (gpuChars cpuChars : Bytes) (start stop : Nat) : Bytes :=
  if stop - start ≤ 12 then slice gpuChars start stop else slice cpuChars start stop

/-- The kernel computes the index of a string in 32 bits; further strings are never written. -/
def materializeStringColumnToDuckdbFormat (c : GPUColumn) (room : Room) :
    Action (List Bytes × Room) :=
  match c.dataWrapper.offset with
  | none => Proc.raise .fault
  | some offset => do
    let cpuChars ← copyToHost c.dataWrapper.data c.dataWrapper.numBytes
    if room.chars < c.dataWrapper.numBytes ∨ room.strings < c.dataWrapper.size then
      Proc.raise .fault
    else if 2 ^ 32 < c.dataWrapper.size then Proc.raise .fault
    else do
      let starts ← load Content.asWords offset
      let gpuChars ← loadData c
      let strings := (List.range c.dataWrapper.size).map fun i =>
        cpuString gpuChars cpuChars (starts.getD i 0) (starts.getD (i + 1) 0)
      pure (strings, ⟨room.strings - c.dataWrapper.size, room.chars - c.dataWrapper.numBytes⟩)

/-- The column on the host and the room that is left. -/
def toHost (planned : LogicalType) (c : GPUColumn) (room : Room) :
    Action (HostColumn × Room) :=
  if c.type = .varchar then do
    let (strings, room) ← materializeStringColumnToDuckdbFormat c room
    let mask ← copyMask c
    pure (⟨c.type, c.columnLength, .strings strings, mask⟩, room)
  else do
    let (bytes, c) ← copyColumn cast planned c
    let mask ← copyMask c
    pure (⟨c.type, c.columnLength, .raw bytes, mask⟩, room)

/-- The loop over the columns; it ends without a result at a column without rows. -/
def collectColumns : List (LogicalType × GPUColumn) → Room → Action (Option (List HostColumn))
  | [], _ => pure (some [])
  | (planned, c) :: rest, room =>
    if c.rowCount = 0 then pure none else do
      let materialized ← finalMaterialize c
      let (host, room) ← toHost cast planned materialized room
      let hosts ← collectColumns rest room
      pure (hosts.map (host :: ·))

end Host

section Chunks

def standardVectorSize : Nat := 2048

/-- A vector has the type its chunk is initialized with; its data and its validity are
pointers into the host columns. -/
structure Vector where
  type : LogicalType
  data : HostData
  start : Nat
  validity : List MaskWord
  deriving DecidableEq

structure DataChunk where
  data : List Vector
  size : Nat
  deriving DecidableEq

/-- `Vector::Reference` checks the type ids and keeps the type of the chunk. -/
def reference (planned : LogicalType) (v : Vector) : Except Exception Vector :=
  if planned.sameId v.type then .ok { v with type := planned }
  else .error (.internal "Vector::Reference used on vector of different type")

def rawDataToVector (hostData : HostData) (vectorOffset : Nat) (type : GPUColumnType)
    (mask : List MaskWord) : Vector where
  type := columnTypeToLogicalType type
  data := hostData
  start := vectorOffset * standardVectorSize * getColumnTypeSize type
  validity := mask

def vectorOf (planned : LogicalType) (host : HostColumn) (vec readIndex : Nat) : Vector :=
  if host.type = .varchar then ⟨.varchar, host.data, readIndex, host.mask⟩
  else if planned.isInt128 ∧ planned.sameId (.decimal 0 0) = false then
    rawDataToVector host.data vec .int128 host.mask
  else rawDataToVector host.data vec host.type host.mask

def makeChunk (types : List LogicalType) (hosts : List HostColumn) (vec readIndex size : Nat) :
    Except Exception DataChunk := do
  let data ← (types.zip hosts).mapM fun (planned, host) =>
    reference planned (vectorOf planned host vec readIndex)
  pure ⟨data, size⟩

end Chunks

section Collection

structure GPUResultCollection where
  dataChunks : List DataChunk
  numRows : Nat
  writeIdx : Nat
  readIdx : Nat
  deriving DecidableEq

namespace GPUResultCollection

def empty : GPUResultCollection := ⟨[], 0, 0, 0⟩

def setCapacity (results : GPUResultCollection) (capacity : Nat) : GPUResultCollection :=
  { results with dataChunks := List.replicate capacity ⟨[], 0⟩ }

/-- A write past the array is a fault. -/
def addChunk (chunk : DataChunk) : Proc GPUResultCollection Exception Unit := fun results =>
  if results.writeIdx < results.dataChunks.length then
    (.ok (), { results with
      numRows := results.numRows + chunk.size
      dataChunks := results.dataChunks.set results.writeIdx chunk
      writeIdx := results.writeIdx + 1 })
  else (.error .fault, results)

def getNext : Proc GPUResultCollection Exception (Option DataChunk) := fun results =>
  if results.writeIdx ≤ results.readIdx then (.ok none, results)
  else match results.dataChunks[results.readIdx]? with
    | none => (.error .fault, results)
    | some chunk => (.ok (some chunk), { results with
        readIdx := results.readIdx + 1
        numRows := results.numRows - chunk.size })

/-- The chunks of repeated fetches, up to the null pointer. -/
inductive Fetched : GPUResultCollection → List DataChunk → Prop
  | done {results : GPUResultCollection} (last : getNext results = (.ok none, results)) :
    Fetched results []
  | next {results results' : GPUResultCollection} {chunk : DataChunk} {chunks : List DataChunk}
    (first : getNext results = (.ok (some chunk), results')) (rest : Fetched results' chunks) :
    Fetched results (chunk :: chunks)

end GPUResultCollection

end Collection

section Sink

structure Collector where
  memory : State
  results : GPUResultCollection

def onMemory {α : Type} (x : Action α) : Proc Collector Exception α := fun s =>
  ((x s.memory).1, { s with memory := (x s.memory).2 })

def onResults {α : Type} (x : Proc GPUResultCollection Exception α) :
    Proc Collector Exception α := fun s =>
  ((x s.results).1, { s with results := (x s.results).2 })

def addChunks (types : List LogicalType) (hosts : List HostColumn) :
    Nat → Nat → Nat → Nat → Proc GPUResultCollection Exception Unit
  | 0, _, _, _ => pure ()
  | vectors + 1, vec, readIndex, remaining => do
    let size := min remaining standardVectorSize
    match makeChunk types hosts vec readIndex size with
    | .error e => Proc.raise e
    | .ok chunk => do
      GPUResultCollection.addChunk chunk
      addChunks types hosts vectors (vec + 1) (readIndex + size) (remaining - size)

/-- `GPUPhysicalMaterializedCollector::Sink`. -/
def sink (cast : DecimalCast) (types : List LogicalType) (relation : GPUIntermediateRelation) :
    Proc Collector Exception Unit :=
  if types.length ≠ relation.length then Proc.raise (.invalidInput "Column count mismatch")
  else do
    let collected ← onMemory (collectColumns cast (types.zip relation) (reserve relation))
    match collected with
    | none => pure ()
    | some [] => Proc.raise (.internal "Attempted to access index 0 within vector of size 0")
    | some (host :: hosts) => do
      let vectors := (host.columnLength + standardVectorSize - 1) / standardVectorSize
      onResults (Proc.update (·.setCapacity vectors))
      onResults (addChunks types (host :: hosts) vectors 0 0 host.columnLength)

end Sink

section Rows

/-- The value at a row of a vector, or NULL. -/
def Vector.cell (v : Vector) (row : Nat) : Option Value :=
  if maskBit (some v.validity) row then
    match v.data with
    | .raw bytes =>
      let place := v.start + row * v.type.size
      some (v.type.read (slice bytes place (place + v.type.size)))
    | .strings strings =>
      match strings[v.start + row]? with
      | some chars => some (v.type.read chars)
      | none => some .undefined
  else none

def DataChunk.rows (chunk : DataChunk) : List (List (Option Value)) :=
  (List.range chunk.size).map fun row => chunk.data.map (·.cell row)

/-- The rows of columns of one length. -/
def rowsOf (count : Nat) (columns : List (List (Option Value))) : List (List (Option Value)) :=
  (List.range count).map fun row => columns.map fun column => column.getD row none

end Rows

end ResultCollector
