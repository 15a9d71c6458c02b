import SiriusGpu.GpuMemory
import SiriusGpu.ColumnFormat

/-!
# Columns on the GPU

A column points to a data buffer, for strings to an offset buffer, and to a
validity mask if it has NULLs. With row ids its rows are the entries they select.
-/

namespace GpuColumns

open ThrowingState ColumnFormat GpuMemory

section Types

inductive GPUColumnType
  | int16 | int32 | int64 | float32 | float64 | boolean | date
  | timestampSec | timestampMs | timestampUs | timestampNs
  | varchar | int128
  | decimal (width scale : Nat)
  deriving DecidableEq, Repr

/-- `GetDecimalTypeSize`; no decimal is wider than 38 digits. -/
def decimalTypeSize (width : Nat) : Nat :=
  if width ≤ 4 then 2 else if width ≤ 9 then 4 else if width ≤ 18 then 8 else 16

def getColumnTypeSize : GPUColumnType → Nat
  | .int16 => 2
  | .int32 | .date | .float32 => 4
  | .int64 | .timestampSec | .timestampMs | .timestampUs | .timestampNs | .float64 => 8
  | .int128 => 16
  | .boolean => 1
  | .varchar => 128
  | .decimal width _ => decimalTypeSize width

def getMaskBytesSize (columnLength : Nat) : Nat := 64 * (((columnLength + 7) / 8 + 63) / 64)

end Types

section Columns

structure DataWrapper where
  type : GPUColumnType
  data : Option Handle
  size : Nat
  offset : Option Handle
  numBytes : Nat
  isStringData : Bool
  validityMask : Option Handle
  maskBytes : Nat
  deriving DecidableEq, Repr

structure GPUColumn where
  dataWrapper : DataWrapper
  rowIds : Option Handle
  rowIdCount : Nat
  columnLength : Nat
  isUnique : Bool
  deriving DecidableEq, Repr

abbrev GPUIntermediateRelation := List GPUColumn

/-- The constructor without offsets; it leaves `row_id_count` unset. -/
def newColumn (columnLength : Nat) (type : GPUColumnType) (data validityMask : Option Handle) :
    GPUColumn where
  dataWrapper := {
    type := type
    data := data
    size := columnLength
    offset := none
    numBytes := columnLength * getColumnTypeSize type
    isStringData := false
    validityMask := validityMask
    maskBytes := getMaskBytesSize columnLength }
  rowIds := none
  rowIdCount := 0
  columnLength := columnLength
  isUnique := false

def newStringColumn (columnLength : Nat) (type : GPUColumnType) (data offset : Option Handle)
    (numBytes : Nat) (isStringData : Bool) (validityMask : Option Handle) : GPUColumn where
  dataWrapper := {
    type := type
    data := data
    size := columnLength
    offset := offset
    numBytes := if isStringData then numBytes else columnLength * getColumnTypeSize type
    isStringData := isStringData
    validityMask := validityMask
    maskBytes := getMaskBytesSize columnLength }
  rowIds := none
  rowIdCount := 0
  columnLength := columnLength
  isUnique := false

def GPUColumn.type (c : GPUColumn) : GPUColumnType := c.dataWrapper.type

def GPUColumn.setUnique (c : GPUColumn) (isUnique : Bool) : GPUColumn :=
  { c with isUnique := isUnique }

/-- The counts of a column are those of its length. -/
def GPUColumn.Counted (c : GPUColumn) : Prop :=
  c.dataWrapper.size = c.columnLength ∧
    c.dataWrapper.maskBytes = getMaskBytesSize c.columnLength

/-- The buffers a column is read from, but for its row ids. -/
def GPUColumn.buffers (c : GPUColumn) : List Handle :=
  c.dataWrapper.data.toList ++ (if c.type = .varchar then c.dataWrapper.offset.toList else []) ++
    c.dataWrapper.validityMask.toList

def GPUColumn.rowCount (c : GPUColumn) : Nat :=
  match c.rowIds with
  | some _ => c.rowIdCount
  | none => c.columnLength

end Columns

section Content

/-- Whether an entry is valid; a column without mask has no NULL. -/
def maskBit (mask : Option (List MaskWord)) (i : Nat) : Bool :=
  match mask with
  | some words => (words.getD (i / 32) 0).getLsbD (i % 32)
  | none => true

structure Base where
  bytes : Bytes
  start : Nat → Nat
  mask : Option (List MaskWord)

def Base.bits (b : Base) (i : Nat) : Bytes := slice b.bytes (b.start i) (b.start (i + 1))

def Base.entry (b : Base) (i : Nat) : Option Bytes :=
  if maskBit b.mask i then some (b.bits i) else none

/-- The entries lie one behind the other in the data. -/
def Base.Sound (b : Base) (length : Nat) : Prop :=
  (∀ i < length, b.start i ≤ b.start (i + 1)) ∧ b.start length ≤ b.bytes.length

instance (b : Base) (length : Nat) : Decidable (b.Sound length) := by
  unfold Base.Sound
  infer_instance

/-- Where the entries start: at the offsets of a string column, else at multiples of the width. -/
def startsOf (s : State) (c : GPUColumn) : Option (Nat → Nat) :=
  if c.type = .varchar then do
    let offsets ← s.at Content.asWords (← c.dataWrapper.offset)
    if c.columnLength < offsets.length then some fun i => offsets.getD i 0 else none
  else some fun i => i * getColumnTypeSize c.type

def maskAt (s : State) : Option Handle → Option (Option (List MaskWord))
  | none => some none
  | some h => (s.at Content.asBits h).map some

def baseOf (s : State) (c : GPUColumn) : Option Base := do
  let bytes ← s.at Content.asBytes (← c.dataWrapper.data)
  let start ← startsOf s c
  let mask ← maskAt s c.dataWrapper.validityMask
  let base : Base := ⟨bytes, start, mask⟩
  if base.Sound c.columnLength then some base else none

def idsOf (s : State) (c : GPUColumn) : Option (List Nat) :=
  match c.rowIds with
  | none => some (List.range c.columnLength)
  | some h => do
    let ids ← s.at Content.asWords h
    if c.rowIdCount ≤ ids.length ∧ ∀ i ∈ ids.take c.rowIdCount, i < c.columnLength then
      some (ids.take c.rowIdCount)
    else none

/-- The logical content of a column, if it has one: its entries may be read where it points. -/
def logical (s : State) (c : GPUColumn) : Option (List (Option Bytes)) :=
  if c.rowCount = 0 then some [] else do
    let base ← baseOf s c
    let ids ← idsOf s c
    some (ids.map base.entry)

/-- The bytes of the rows, whether they are valid or not. -/
def rawOf (s : State) (c : GPUColumn) : Option (List Bytes) := do
  let base ← baseOf s c
  let ids ← idsOf s c
  some (ids.map base.bits)

theorem Base.Sound.start_le {b : Base} {length i j : Nat} (sound : b.Sound length)
    (hij : i ≤ j) (hj : j ≤ length) : b.start i ≤ b.start j := by
  induction j with
  | zero =>
    obtain rfl : i = 0 := by omega
    exact Nat.le_refl _
  | succ j ih =>
    by_cases same : i = j + 1
    · subst same
      exact Nat.le_refl _
    · have := ih (by omega) (by omega)
      have := sound.1 j (by omega)
      omega

theorem Base.Sound.bits_length {b : Base} {length i : Nat} (sound : b.Sound length)
    (hi : i < length) : (b.bits i).length = b.start (i + 1) - b.start i := by
  have stop := sound.start_le (i := i + 1) hi (Nat.le_refl _)
  have := sound.1 i hi
  have := sound.2
  simp only [Base.bits, slice, List.length_take, List.length_drop]
  omega

end Content

section Masks

variable {s : State}

theorem maskAt_kept {s' : State} {F : Handle → Prop} (keeps : Keeps s s' F) {m : Option Handle}
    (kept : ∀ h ∈ m, F h → h ∉ s.allocationTable) {mask : Option (List MaskWord)}
    (at' : maskAt s m = some mask) :
    maskAt s' m = some mask := by
  cases m with
  | none => exact at'
  | some h =>
    obtain ⟨words, found, rfl⟩ : ∃ words, s.at Content.asBits h = some words ∧
        some words = mask := by simpa [maskAt] using at'
    simp [maskAt, keeps.at (kept h rfl) found]

theorem live_of_maskAt {m : Option Handle} {mask : Option (List MaskWord)}
    (at' : maskAt s m = some mask) : ∀ h ∈ m, s.Live h := by
  rintro h rfl
  cases found : s.at Content.asBits h with
  | none => simp [maskAt, found] at at'
  | some words => exact live_of_at found

theorem apart_mask {α : Type} {view : Content → Option α}
    (kinds : ∀ content, view content = none ∨ Content.asBits content = none) {g : Handle} {a : α}
    (atG : s.at view g = some a) {m : Option Handle} {mask : Option (List MaskWord)}
    (at' : maskAt s m = some mask) : ∀ h ∈ m, h ≠ g := by
  rintro h rfl
  obtain ⟨words, found, -⟩ : ∃ words, s.at Content.asBits h = some words ∧
      some words = mask := by simpa [maskAt] using at'
  exact (apart_of_kind kinds atG found).symm

end Masks

section Readable

variable {s : State} {c : GPUColumn} {b : Base}

theorem baseOf_iff : baseOf s c = some b ↔ (∃ d, c.dataWrapper.data = some d ∧
    s.at Content.asBytes d = some b.bytes) ∧ startsOf s c = some b.start ∧
    maskAt s c.dataWrapper.validityMask = some b.mask ∧ b.Sound c.columnLength := by
  constructor
  · intro found
    obtain ⟨d, data, bytes, atData, start, starts, mask, atMask, sound, rfl⟩ : ∃ d,
        c.dataWrapper.data = some d ∧ ∃ bytes, s.at Content.asBytes d = some bytes ∧
        ∃ start, startsOf s c = some start ∧
        ∃ mask, maskAt s c.dataWrapper.validityMask = some mask ∧
        Base.Sound ⟨bytes, start, mask⟩ c.columnLength ∧ ⟨bytes, start, mask⟩ = b := by
      simpa [baseOf, Option.bind_eq_some_iff] using found
    exact ⟨⟨d, data, atData⟩, starts, atMask, sound⟩
  · rintro ⟨⟨d, data, atData⟩, starts, mask, sound⟩
    have sound' : Base.Sound ⟨b.bytes, b.start, b.mask⟩ c.columnLength := sound
    simp [baseOf, data, atData, starts, mask, sound']

theorem startsOf_fixed (fixed : c.type ≠ .varchar) :
    startsOf s c = some fun i => i * getColumnTypeSize c.type := if_neg fixed

theorem startsOf_string (string : c.type = .varchar) {start : Nat → Nat} :
    startsOf s c = some start ↔ ∃ o starts, c.dataWrapper.offset = some o ∧
      s.at Content.asWords o = some starts ∧ c.columnLength < starts.length ∧
      start = fun i => starts.getD i 0 := by
  unfold startsOf
  rw [if_pos string]
  constructor
  · intro found
    obtain ⟨o, offset, starts, atOffset, room, rfl⟩ : ∃ o, c.dataWrapper.offset = some o ∧
        ∃ starts, s.at Content.asWords o = some starts ∧ c.columnLength < starts.length ∧
        (fun i => starts.getD i 0) = start := by
      simpa [Option.bind_eq_some_iff] using found
    exact ⟨o, starts, offset, atOffset, room, rfl⟩
  · rintro ⟨o, starts, offset, atOffset, room, rfl⟩
    simp [offset, atOffset, room]

theorem startsOf_offsets (string : c.type = .varchar) {o : Handle} {starts : List Nat}
    (offset : c.dataWrapper.offset = some o) (atOffset : s.at Content.asWords o = some starts)
    (room : c.columnLength < starts.length) : startsOf s c = some fun i => starts.getD i 0 :=
  (startsOf_string string).mpr ⟨o, starts, offset, atOffset, room, rfl⟩

theorem idsOf_mem {rowIds : List Nat} (ids : idsOf s c = some rowIds) :
    ∀ i ∈ rowIds, i < c.columnLength := by
  unfold idsOf at ids
  cases late : c.rowIds with
  | none =>
    rw [late] at ids
    cases ids
    intro i hi
    exact List.mem_range.mp hi
  | some r =>
    rw [late] at ids
    obtain ⟨words, -, ⟨-, inside⟩, rfl⟩ : ∃ words, s.at Content.asWords r = some words ∧
        (c.rowIdCount ≤ words.length ∧ ∀ i ∈ words.take c.rowIdCount, i < c.columnLength) ∧
        words.take c.rowIdCount = rowIds := by
      simpa [Option.bind_eq_some_iff] using ids
    exact inside

theorem idsOf_length {rowIds : List Nat} (ids : idsOf s c = some rowIds) :
    rowIds.length = c.rowCount := by
  unfold idsOf at ids
  unfold GPUColumn.rowCount
  cases late : c.rowIds with
  | none =>
    rw [late] at ids
    cases ids
    exact List.length_range
  | some r =>
    rw [late] at ids
    obtain ⟨words, -, ⟨room, -⟩, rfl⟩ : ∃ words, s.at Content.asWords r = some words ∧
        (c.rowIdCount ≤ words.length ∧ ∀ i ∈ words.take c.rowIdCount, i < c.columnLength) ∧
        words.take c.rowIdCount = rowIds := by
      simpa [Option.bind_eq_some_iff] using ids
    rw [List.length_take]
    exact Nat.min_eq_left room

theorem logical_iff (rows : c.rowCount ≠ 0) {values : List (Option Bytes)} :
    logical s c = some values ↔ ∃ base rowIds, baseOf s c = some base ∧
      idsOf s c = some rowIds ∧ values = rowIds.map base.entry := by
  unfold logical
  rw [if_neg rows]
  constructor
  · intro found
    obtain ⟨base, atBase, rowIds, ids, rfl⟩ : ∃ base, baseOf s c = some base ∧
        ∃ rowIds, idsOf s c = some rowIds ∧ rowIds.map base.entry = values := by
      simpa [Option.bind_eq_some_iff] using found
    exact ⟨base, rowIds, atBase, ids, rfl⟩
  · rintro ⟨base, rowIds, atBase, ids, rfl⟩
    simp [atBase, ids]

theorem logical_length {values : List (Option Bytes)} (content : logical s c = some values) :
    values.length = c.rowCount := by
  by_cases rows : c.rowCount = 0
  · unfold logical at content
    rw [if_pos rows] at content
    cases content
    exact rows.symm
  · obtain ⟨base, rowIds, -, ids, rfl⟩ := (logical_iff rows).mp content
    rw [List.length_map, idsOf_length ids]

/-- The content of a column without row ids. -/
theorem logical_of_base (materialized : c.rowIds = none) (found : baseOf s c = some b) :
    logical s c = some ((List.range c.columnLength).map b.entry) := by
  have ids : idsOf s c = some (List.range c.columnLength) := by rw [idsOf, materialized]
  have count : c.rowCount = c.columnLength := by rw [GPUColumn.rowCount, materialized]
  by_cases rows : c.rowCount = 0
  · unfold logical
    rw [if_pos rows, ← count, rows]
    rfl
  · exact (logical_iff rows).mpr ⟨b, _, found, ids, rfl⟩

theorem rawOf_eq {rowIds : List Nat} (found : baseOf s c = some b)
    (ids : idsOf s c = some rowIds) : rawOf s c = some (rowIds.map b.bits) := by
  simp [rawOf, found, ids]

theorem rawOf_of_base (materialized : c.rowIds = none) (found : baseOf s c = some b) :
    rawOf s c = some ((List.range c.columnLength).map b.bits) :=
  rawOf_eq found (by rw [idsOf, materialized])

/-- A column with rows that may be read has its buffers. -/
theorem live_of_logical {values : List (Option Bytes)} (content : logical s c = some values)
    (rows : c.rowCount ≠ 0) : ∀ h ∈ c.buffers, s.Live h := by
  obtain ⟨base, -, found, -⟩ := (logical_iff rows).mp content
  obtain ⟨⟨d, data, atData⟩, starts, mask, -⟩ := baseOf_iff.mp found
  intro h hb
  simp only [GPUColumn.buffers, data, Option.toList_some, List.mem_append, List.mem_cons,
    List.not_mem_nil, or_false] at hb
  rcases hb with (rfl | hb) | hb
  · exact live_of_at atData
  · by_cases string : c.type = .varchar
    · obtain ⟨o, offsets, offset, atOffset, -⟩ := (startsOf_string string).mp starts
      rw [if_pos string, offset] at hb
      obtain rfl : h = o := by simpa using hb
      exact live_of_at atOffset
    · simp [string] at hb
  · exact live_of_maskAt mask h (by simpa using hb)

/-- Content depends on what the buffers and the row ids hold. -/
theorem logical_congr {s' : State}
    (same : ∀ h ∈ c.buffers ++ c.rowIds.toList, s'.contents h = s.contents h) :
    logical s' c = logical s c := by
  have view : ∀ {α : Type} (f : Content → Option α), ∀ h ∈ c.buffers ++ c.rowIds.toList,
      s'.at f h = s.at f h := fun f h member => by rw [State.at, State.at, same h member]
  have starts : startsOf s' c = startsOf s c := by
    unfold startsOf
    by_cases string : c.type = .varchar
    · rw [if_pos string, if_pos string]
      cases offset : c.dataWrapper.offset with
      | none => rfl
      | some o =>
        have := view Content.asWords o (by simp [GPUColumn.buffers, string, offset])
        simp only [Option.bind_eq_bind, Option.bind_some, this]
    · rw [if_neg string, if_neg string]
  have mask : maskAt s' c.dataWrapper.validityMask = maskAt s c.dataWrapper.validityMask := by
    cases validity : c.dataWrapper.validityMask with
    | none => rfl
    | some m => rw [maskAt, maskAt, view Content.asBits m (by simp [GPUColumn.buffers, validity])]
  have base : baseOf s' c = baseOf s c := by
    unfold baseOf
    cases data : c.dataWrapper.data with
    | none => rfl
    | some d =>
      have := view Content.asBytes d (by simp [GPUColumn.buffers, data])
      simp only [Option.bind_eq_bind, Option.bind_some, this, starts, mask]
  have ids : idsOf s' c = idsOf s c := by
    unfold idsOf
    cases late : c.rowIds with
    | none => rfl
    | some r =>
      have := view Content.asWords r (by simp [late])
      simp only [this]
  unfold logical
  rw [base, ids]

theorem live_of_ids {rowIds : List Nat} (ids : idsOf s c = some rowIds) :
    ∀ h ∈ c.rowIds, s.Live h := by
  intro r late
  unfold idsOf at ids
  rw [Option.mem_def.mp late] at ids
  obtain ⟨words, atIds, -⟩ := Option.bind_eq_some_iff.mp ids
  exact live_of_at atIds

section Kept

variable {s' : State} {F : Handle → Prop}

theorem startsOf_kept (keeps : Keeps s s' F) {start : Nat → Nat}
    (starts : startsOf s c = some start)
    (kept : ∀ h ∈ c.buffers, F h → h ∉ s.allocationTable) : startsOf s' c = some start := by
  by_cases string : c.type = .varchar
  · obtain ⟨o, offsets, offset, atOffset, room, rfl⟩ := (startsOf_string string).mp starts
    have atOffset' := keeps.at (kept o (by simp [GPUColumn.buffers, string, offset])) atOffset
    exact startsOf_offsets string offset atOffset' room
  · rw [startsOf_fixed string] at starts ⊢
    exact starts

theorem baseOf_kept (keeps : Keeps s s' F) (found : baseOf s c = some b)
    (kept : ∀ h ∈ c.buffers, F h → h ∉ s.allocationTable) : baseOf s' c = some b := by
  obtain ⟨⟨d, data, atData⟩, starts, mask, sound⟩ := baseOf_iff.mp found
  refine baseOf_iff.mpr ⟨⟨d, data, ?_⟩, startsOf_kept keeps starts kept, ?_, sound⟩
  · exact keeps.at (kept d (by simp [GPUColumn.buffers, data])) atData
  · apply maskAt_kept keeps _ mask
    intro h hm
    exact kept h (by simp [GPUColumn.buffers, Option.mem_def.mp hm])

theorem idsOf_kept (keeps : Keeps s s' F) {rowIds : List Nat} (ids : idsOf s c = some rowIds)
    (kept : ∀ h ∈ c.rowIds, F h → h ∉ s.allocationTable) : idsOf s' c = some rowIds := by
  unfold idsOf at ids ⊢
  cases late : c.rowIds with
  | none =>
    rw [late] at ids
    exact ids
  | some r =>
    rw [late] at ids
    obtain ⟨words, atIds, rest⟩ := Option.bind_eq_some_iff.mp ids
    have atIds' := keeps.at (kept r (by simp [late])) atIds
    exact Option.bind_eq_some_iff.mpr ⟨words, atIds', rest⟩

variable (kept : ∀ h ∈ c.buffers ++ c.rowIds.toList, F h → h ∉ s.allocationTable)
include kept

theorem rawOf_kept (keeps : Keeps s s' F) {pieces : List Bytes}
    (raw : rawOf s c = some pieces) : rawOf s' c = some pieces := by
  obtain ⟨base, found, rowIds, ids, rfl⟩ : ∃ base, baseOf s c = some base ∧
      ∃ rowIds, idsOf s c = some rowIds ∧ rowIds.map base.bits = pieces := by
    simpa [rawOf, Option.bind_eq_some_iff] using raw
  apply rawOf_eq
  · exact baseOf_kept keeps found fun h hb => kept h (List.mem_append_left _ hb)
  · exact idsOf_kept keeps ids fun h hr => kept h (by simpa using .inr hr)

/-- Content is kept with the buffers and the row ids. -/
theorem logical_kept (keeps : Keeps s s' F)
    {values : List (Option Bytes)} (content : logical s c = some values) :
    logical s' c = some values := by
  by_cases rows : c.rowCount = 0
  · unfold logical at content ⊢
    rw [if_pos rows] at content ⊢
    exact content
  · obtain ⟨base, rowIds, found, ids, rfl⟩ := (logical_iff rows).mp content
    refine (logical_iff rows).mpr ⟨base, rowIds, ?_, ?_, rfl⟩
    · exact baseOf_kept keeps found fun h hb => kept h (List.mem_append_left _ hb)
    · exact idsOf_kept keeps ids fun h hr => kept h (by simpa using .inr hr)

end Kept

end Readable

end GpuColumns
