import Mathlib
import SiriusGpu.ResultCollector

/-!
# Widening to 128 bits

The kernels that widen integers for a HUGEINT column of the result. A thread writes one entry,
word by word; its index is a 32-bit number.
-/

namespace Int128Widening

open ColumnFormat GpuMemory GpuColumns ResultCollector

section Model

/-- An entry of the output is 16 bytes. -/
abbrev Output := Nat → Bytes

/-- The word at `idx`, and words of zeros above it. -/
def convertKernel (width : Nat) (input : Bytes) (count idx : Nat) (output : Output) : Output :=
  if idx < count then
    Function.update output idx (slice input (idx * width) ((idx + 1) * width) ++
      (List.replicate (16 / width - 1) (List.replicate width 0)).flatten)
  else output

def threadsPerBlock : Nat := 256

/-- The blocks that run: their number is cut to 32 bits, and from 2^31 on nothing is launched. -/
def launched (count : Nat) : Nat :=
  let blocks := (count + threadsPerBlock - 1) % 2 ^ 64 / threadsPerBlock % 2 ^ 32
  if blocks < 2 ^ 31 then blocks else 0

/-- The indices of the threads, `blockIdx.x * blockDim.x + threadIdx.x` in 32 bits. -/
def threads (blocks : Nat) : List Nat :=
  (List.range blocks).flatMap fun block =>
    (List.range threadsPerBlock).map fun thread => (block * threadsPerBlock + thread) % 2 ^ 32

def convert (width : Nat) (input : Bytes) (output : Output) (count : Nat) : Output :=
  if count = 0 then output
  else (threads (launched count)).foldl
    (fun output idx => convertKernel width input count idx output) output

def convertInt64ToInt128 : Bytes → Output → Nat → Output := convert 8

def convertInt32ToInt128 : Bytes → Output → Nat → Output := convert 4

def convertInt16ToInt128 : Bytes → Output → Nat → Output := convert 2

/-- The conversions in `Sink` of a column that is no string, for a planned type of 128 bits that
is no decimal. -/
def converted (type : GPUColumnType) (input : Bytes) (temp : Output) (columnLength : Nat) :
    Except Exception Output :=
  match type with
  | .int64 => .ok (convertInt64ToInt128 input temp columnLength)
  | .int32 => .ok (convertInt32ToInt128 input temp columnLength)
  | .int16 => .ok (convertInt16ToInt128 input temp columnLength)
  | .decimal _ _ => .error (.internal
      "Destiation type is not decimal when performing INT128 (physical type) conversion for decimal,")
  | _ => .error (.notImplemented "Unsupported siris column type for INT128 conversion")

end Model

section Grid

variable {width count idx : Nat} {input : Bytes} {output : Output}

theorem mem_threads {blocks : Nat} :
    idx ∈ threads blocks ↔ idx < 2 ^ 32 ∧ idx < blocks * threadsPerBlock := by
  simp only [threads, threadsPerBlock, List.mem_flatMap, List.mem_map, List.mem_range]
  constructor
  · rintro ⟨block, inside, thread, small, rfl⟩
    omega
  · rintro ⟨small, inside⟩
    exact ⟨idx / 256, by omega, idx % 256, by omega, by omega⟩

theorem launched_small (small : count ≤ 2 ^ 32) : count ≤ launched count * threadsPerBlock := by
  have blocks : (count + 256 - 1) % 2 ^ 64 / 256 % 2 ^ 32 = (count + 255) / 256 := by omega
  simp only [launched, threadsPerBlock, blocks]
  rw [if_pos (by omega)]
  omega

/-- What a kernel leaves at a place does not depend on the other threads. -/
theorem foldl_kernel (indices : List Nat) :
    indices.foldl (fun output idx => convertKernel width input count idx output) output idx =
      if idx ∈ indices ∧ idx < count then
        slice input (idx * width) ((idx + 1) * width) ++
          (List.replicate (16 / width - 1) (List.replicate width 0)).flatten
      else output idx := by
  induction indices generalizing output with
  | nil => simp
  | cons first rest ih =>
    rw [List.foldl_cons, ih, convertKernel]
    by_cases later : idx ∈ rest ∧ idx < count
    · rw [if_pos later, if_pos ⟨List.mem_cons_of_mem _ later.1, later.2⟩]
    · rw [if_neg later]
      by_cases same : idx = first
      · subst same
        by_cases inside : idx < count
        · rw [if_pos inside, Function.update_self, if_pos ⟨List.mem_cons_self, inside⟩]
        · rw [if_neg inside, if_neg fun both => inside both.2]
      · have apart : ¬ (idx ∈ first :: rest ∧ idx < count) := fun both =>
          later ⟨(List.mem_cons.mp both.1).resolve_left same, both.2⟩
        rw [if_neg apart]
        split
        · rw [Function.update_of_ne same]
        · rfl

/-- The rows some thread writes. -/
def Written (count i : Nat) : Prop := i < 2 ^ 32 ∧ i < launched count * threadsPerBlock

instance (i : Nat) : Decidable (Written count i) := inferInstanceAs (Decidable (_ ∧ _))

theorem convert_row (inside : idx < count) : convert width input output count idx =
    if Written count idx then
      slice input (idx * width) ((idx + 1) * width) ++
        (List.replicate (16 / width - 1) (List.replicate width 0)).flatten
    else output idx := by
  have nonzero : count ≠ 0 := by omega
  rw [convert, if_neg nonzero, foldl_kernel]
  exact if_congr (by rw [mem_threads, and_iff_left inside, Written]) rfl rfl

end Grid

section Values

variable {type : GPUColumnType} {count : Nat} {input : Bytes}

/-- The types of signed integers below 128 bits. -/
def narrow : GPUColumnType → Bool
  | .int16 | .int32 | .int64 => true
  | _ => false

theorem narrow_cases (isNarrow : narrow type = true) :
    type = .int16 ∨ type = .int32 ∨ type = .int64 := by
  cases type <;> simp_all [narrow]

def entry (type : GPUColumnType) (input : Bytes) (i : Nat) : Bytes :=
  slice input (i * getColumnTypeSize type) ((i + 1) * getColumnTypeSize type)

theorem entry_length (sized : input.length = count * getColumnTypeSize type) {i : Nat}
    (inside : i < count) : (entry type input i).length = getColumnTypeSize type := by
  have room : (i + 1) * getColumnTypeSize type ≤ count * getColumnTypeSize type :=
    Nat.mul_le_mul_right _ inside
  rw [Nat.succ_mul] at room
  simp only [entry, slice, List.length_take, List.length_drop, Nat.succ_mul]
  omega

theorem converted_row (isNarrow : narrow type = true) (temp : Output) {i : Nat}
    (inside : i < count) : ∃ output, converted type input temp count = .ok output ∧
      output i = if Written count i then
        entry type input i ++ List.replicate (16 - getColumnTypeSize type) 0 else temp i := by
  obtain rfl | rfl | rfl := narrow_cases isNarrow
  · exact ⟨_, rfl, convert_row inside⟩
  · exact ⟨_, rfl, convert_row inside⟩
  · exact ⟨_, rfl, convert_row inside⟩

/-- Zeros above a value keep it when it is not negative. -/
theorem read_zeros (isNarrow : narrow type = true)
    (sized : input.length = count * getColumnTypeSize type) {i : Nat} (inside : i < count) :
    LogicalType.hugeint.read
        (entry type input i ++ List.replicate (16 - getColumnTypeSize type) 0) =
      valueOf type (entry type input i) ↔ 0 ≤ signed (entry type input i) := by
  have length := entry_length sized inside
  have more : 16 - getColumnTypeSize type ≠ 0 := by
    obtain rfl | rfl | rfl := narrow_cases isNarrow <;> decide
  have wide : (entry type input i ++
      List.replicate (16 - getColumnTypeSize type) 0).length = LogicalType.hugeint.size := by
    rw [List.length_append, List.length_replicate, length]
    obtain rfl | rfl | rfl := narrow_cases isNarrow <;> rfl
  have stored : valueOf type (entry type input i) = .number (signed (entry type input i)) := by
    obtain rfl | rfl | rfl := narrow_cases isNarrow <;> exact if_pos length
  have delivered : LogicalType.hugeint.read
      (entry type input i ++ List.replicate (16 - getColumnTypeSize type) 0) =
        .number (unsigned (entry type input i)) := by
    rw [LogicalType.read, if_pos wide, signed_zeros _ more]
    rfl
  rw [stored, delivered, ← signed_eq_unsigned_iff, Value.number.injEq]
  exact_mod_cast Iff.rfl

/-- Memory that reads as another value than the given one. -/
theorem exists_other (v : Value) :
    ∃ bytes : Bytes, bytes.length = 16 ∧ LogicalType.hugeint.read bytes ≠ v := by
  by_cases zero : LogicalType.hugeint.read (List.replicate 16 0) = v
  · refine ⟨List.replicate 16 1, rfl, fun one => ?_⟩
    have same := zero.trans one.symm
    revert same
    decide +kernel
  · exact ⟨List.replicate 16 0, rfl, zero⟩

/-- Whatever the memory held, the valid rows are delivered with their values exactly when some
thread writes them and they are not negative. -/
theorem converted_iff (type : GPUColumnType) (isNarrow : narrow type = true) (count : Nat)
    (input : Bytes) (sized : input.length = count * getColumnTypeSize type)
    (valid : Nat → Bool) :
    (∀ temp : Output, (∀ i, (temp i).length = 16) →
      ∃ output, converted type input temp count = .ok output ∧ ∀ i < count, valid i = true →
        LogicalType.hugeint.read (output i) = valueOf type (entry type input i)) ↔
      ∀ i < count, valid i = true → Written count i ∧ 0 ≤ signed (entry type input i) := by
  constructor
  · intro keeps i inside isValid
    obtain ⟨other, other_length, differs⟩ := exists_other (valueOf type (entry type input i))
    obtain ⟨output, returned, kept⟩ := keeps (fun _ => other) fun _ => other_length
    obtain ⟨output', returned', row⟩ := @converted_row type count input isNarrow
      (fun _ => other) i inside
    cases returned.symm.trans returned'
    have same := kept i inside isValid
    rw [row] at same
    by_cases written : Written count i
    · rw [if_pos written] at same
      exact ⟨written, (read_zeros isNarrow sized inside).mp same⟩
    · rw [if_neg written] at same
      exact absurd same differs
  · intro holds temp _
    obtain ⟨output, returned⟩ : ∃ output, converted type input temp count = .ok output := by
      obtain rfl | rfl | rfl := narrow_cases isNarrow <;> exact ⟨_, rfl⟩
    refine ⟨output, returned, fun i inside isValid => ?_⟩
    obtain ⟨written, positive⟩ := holds i inside isValid
    obtain ⟨output', returned', row⟩ := @converted_row type count input isNarrow temp i inside
    cases returned.symm.trans returned'
    rw [row, if_pos written]
    exact (read_zeros isNarrow sized inside).mpr positive

/-- A column of two rows, and its values before and after. -/
theorem two_rows_widened : ([7, 0, 1, 2] : Bytes).length = 2 * getColumnTypeSize .int16 ∧
    ∀ temp : Output, (∀ i, (temp i).length = 16) →
      ∃ output, converted .int16 [7, 0, 1, 2] temp 2 = .ok output ∧ ∀ i < 2, true = true →
        LogicalType.hugeint.read (output i) = valueOf .int16 (entry .int16 [7, 0, 1, 2] i) :=
  ⟨rfl, (converted_iff .int16 rfl 2 [7, 0, 1, 2] rfl fun _ => true).mpr (by decide +kernel)⟩

/-- `-1` is delivered as 4294967295. -/
theorem negative_changed : ¬ ∀ (type : GPUColumnType), narrow type = true →
    ∀ (count : Nat) (input : Bytes), input.length = count * getColumnTypeSize type →
      ∀ valid : Nat → Bool, ∀ temp : Output, (∀ i, (temp i).length = 16) →
        ∃ output, converted type input temp count = .ok output ∧
          ∀ i < count, valid i = true →
            LogicalType.hugeint.read (output i) = valueOf type (entry type input i) := by
  intro keeps
  obtain ⟨output, returned, kept⟩ := keeps .int32 rfl 1 [255, 255, 255, 255] rfl (fun _ => true)
    (fun _ => List.replicate 16 0) (fun _ => rfl)
  obtain ⟨output', returned', row⟩ := @converted_row .int32 1 [255, 255, 255, 255] rfl
    (fun _ => List.replicate 16 0) 0 (by decide)
  cases returned.symm.trans returned'
  have same := kept 0 (by decide) rfl
  rw [row] at same
  revert same
  decide +kernel

end Values

section Sink

variable {width count : Nat} {input : Bytes}

/-- Up to 2^32 rows the host gets what `widen` says. -/
theorem convert_eq_widen (words : width = 2 ∨ width = 4 ∨ width = 8) (temp : Output)
    (small : count ≤ 2 ^ 32) :
    ((List.range count).map (convert width input temp count)).flatten =
      widen width count input := by
  have zeros : (List.replicate (16 / width - 1) (List.replicate width (0 : UInt8))).flatten =
      List.replicate (16 - width) 0 := by
    obtain rfl | rfl | rfl := words <;> rfl
  rw [widen]
  congr 1
  refine List.map_congr_left fun i member => ?_
  have inside := List.mem_range.mp member
  have written : Written count i :=
    ⟨inside.trans_le small, inside.trans_le (launched_small small)⟩
  rw [convert_row inside, if_pos written, zeros]

end Sink

end Int128Widening
