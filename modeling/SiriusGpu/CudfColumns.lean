import SiriusGpu.Materialize

/-!
# Columns of cudf

cudf reads a column through a view of its buffers, which has a mask in any case,
and hands back buffers of its own, which are kept until the query ends.
-/

namespace CudfColumns

open ThrowingState GpuMemory GpuColumns Materialize

/-- A column cudf returns; its string offsets may be of 32 or of 64 bits. -/
structure CudfColumn where
  type : GPUColumnType
  size : Nat
  bytes : Bytes
  mask : Option (List MaskWord)
  offsets : Option (List Nat)
  wideOffsets : Bool

def createNullMask (size : Nat) : Action Handle :=
  customCudaMalloc (.bits (List.replicate (getMaskBytesSize size / 4) (BitVec.allOnes 32)))

def unsupportedType (type : GPUColumnType) : Exception :=
  match type with
  | .decimal _ _ =>
    .internal "Unsupported sirius DECIMAL column type size in `convertToCudfColumn()`"
  | _ => .internal "Unsupported sirius column type in `convertToCudfColumn()`"

/-- A column without mask gets one before cudf views it. -/
def convertToCudfColumn (c : GPUColumn) : Action GPUColumn := do
  let viewed ← match c.dataWrapper.validityMask with
    | some _ => pure c
    | none => do
      let mask ← createNullMask c.columnLength
      pure { c with dataWrapper := { c.dataWrapper with
        validityMask := some mask, maskBytes := getMaskBytesSize c.columnLength } }
  if materializable c.type then pure viewed else Proc.raise (unsupportedType c.type)

def storeOffsets (column : CudfColumn) : Action (Option Handle) :=
  match column.offsets with
  | none => pure none
  | some offsets => do
    let stored ← storeRmm (.words offsets)
    if column.wideOffsets then pure (some stored) else do
      let converted ← customCudaMalloc (.words offsets)
      pure (some converted)

def setFromCudfColumn (column : CudfColumn) (isUnique : Bool) : Action GPUColumn := do
  let data ← storeRmm (.bytes column.bytes)
  let mask ← match column.mask with
    | none => createNullMask column.size
    | some words => storeRmm (.bits words)
  let offset ← storeOffsets column
  let numBytes := if column.type = .varchar then column.bytes.length
    else column.size * getColumnTypeSize column.type
  pure {
    dataWrapper := {
      type := column.type
      data := some data
      size := column.size
      offset := offset
      numBytes := numBytes
      isStringData := column.type = .varchar
      validityMask := some mask
      maskBytes := getMaskBytesSize column.size }
    rowIds := none
    rowIdCount := 0
    columnLength := column.size
    isUnique := isUnique }

section Frees

/-- A view shares the data of its column, and its mask if it has one. -/
def SharesBuffers (c view : GPUColumn) : Prop :=
  view.dataWrapper.data = c.dataWrapper.data ∧
    (c.dataWrapper.validityMask ≠ none → view.dataWrapper.validityMask =
      c.dataWrapper.validityMask)

variable {F : Handle → Prop} {P : State → Prop} (within : Within F P)
include within

theorem createNullMask_within (size : Nat) :
    Triple P (createNullMask size) (fun _ => P) P := within.customCudaMalloc _

theorem convertToCudfColumn_within (c : GPUColumn) :
    Triple P (convertToCudfColumn c) (fun view s => SharesBuffers c view ∧ P s) P := by
  have check : ∀ viewed, SharesBuffers c viewed →
      Triple P (if materializable c.type then pure viewed else
        Proc.raise (unsupportedType c.type)) (fun view s => SharesBuffers c view ∧ P s) P := by
    intro viewed shares
    apply Triple.ite
    · exact fun _ => Triple.ret fun _ h => ⟨shares, h⟩
    · exact fun _ => Triple.raise fun _ h => h
  unfold convertToCudfColumn
  cases validity : c.dataWrapper.validityMask with
  | some m => exact check c ⟨rfl, fun _ => rfl⟩
  | none =>
    apply Triple.bind (createNullMask_within within _)
    intro m
    exact check _ ⟨rfl, fun some => absurd validity some⟩

theorem storeOffsets_within (column : CudfColumn) :
    Triple P (storeOffsets column) (fun _ => P) P := by
  unfold storeOffsets
  cases column.offsets with
  | none => exact Triple.ret fun _ h => h
  | some offsets =>
    apply Triple.bind (within.storeRmm _)
    intro stored
    apply Triple.ite
    · exact fun _ => Triple.ret fun _ h => h
    · exact fun _ => Triple.bind (within.customCudaMalloc _) fun _ => Triple.ret fun _ h => h

/-- The data of a column cudf returns lie in a new place. -/
theorem setFromCudfColumn_within {n : Nat} (later : ∀ s, P s → n ≤ s.next)
    (new : ∀ m, n ≤ m → F (.processing m)) (column : CudfColumn) (isUnique : Bool) :
    Triple P (setFromCudfColumn column isUnique)
      (fun c s => P s ∧ ∀ d ∈ c.dataWrapper.data, F d) P := by
  have stored : Triple P (storeRmm (.bytes column.bytes)) (fun d s => F d ∧ P s) P :=
    fun s hs => ⟨new _ (later s hs), within.store s _ hs⟩
  apply Triple.bind stored
  intro d
  apply Triple.given
  intro inside
  have rest : ∀ mask : Handle, Triple P (do
      let offset ← storeOffsets column
      let numBytes := if column.type = .varchar then column.bytes.length
        else column.size * getColumnTypeSize column.type
      pure ({
        dataWrapper := {
          type := column.type
          data := some d
          size := column.size
          offset := offset
          numBytes := numBytes
          isStringData := column.type = .varchar
          validityMask := some mask
          maskBytes := getMaskBytesSize column.size }
        rowIds := none
        rowIdCount := 0
        columnLength := column.size
        isUnique := isUnique } : GPUColumn))
      (fun c s => P s ∧ ∀ d ∈ c.dataWrapper.data, F d) P := by
    intro mask
    apply Triple.bind (storeOffsets_within within column)
    intro offset
    refine Triple.ret fun s hs => ⟨hs, ?_⟩
    rintro d' ⟨⟩
    exact inside
  cases column.mask with
  | none => exact Triple.bind (createNullMask_within within _) rest
  | some words => exact Triple.bind (within.storeRmm _) rest

end Frees

end CudfColumns
