import Mathlib
import SiriusGpu.ByteMemory
import SiriusGpu.FallibleMaps
import SiriusGpu.ResultCollector

/-!
# Buffers of result strings

One host buffer takes the `string_t` entries of all VARCHAR columns of a result, and behind them
their characters. It is reserved before the row ids are applied, and filled after.
-/

namespace StringBuffers

open ByteMemory ColumnFormat FallibleMaps GpuMemory ResultCollector

section Model

/-- A VARCHAR column, with row ids when its rows are not gathered yet. -/
structure StringColumn where
  data : Bytes
  offset : List Nat
  numBytes : Nat
  size : Nat
  rowIds : Option (List Nat)
  entries : offset.length = size + 1
  ordered : offset.Pairwise (· ≤ ·)
  inside : ∀ place ∈ offset, place ≤ numBytes
  counted : numBytes ≤ data.length
  known : ∀ ids, rowIds = some ids → ∀ id ∈ ids, id < size

def StringColumn.rowCount (c : StringColumn) : Nat :=
  match c.rowIds with
  | some ids => ids.length
  | none => c.size

/-- A column of the result; the buffer does not depend on those that are no strings. -/
inductive Column
  | string (column : StringColumn)
  | other (rowCount : Nat)

def Column.rowCount : Column → Nat
  | .string column => column.rowCount
  | .other rowCount => rowCount

def Column.asString : Column → Option StringColumn
  | .string column => some column
  | .other _ => none

structure Relation where
  rows : Nat
  columns : List Column
  each : ∀ column ∈ columns, column.rowCount = rows

def Relation.strings (r : Relation) : List StringColumn := r.columns.filterMap Column.asString

def allColumnsNumStrings (r : Relation) : Nat := (r.strings.map StringColumn.size).sum

def allColumnsTotalChars (r : Relation) : Nat := (r.strings.map StringColumn.numBytes).sum

def sizeofString : Nat := 16

def StringColumn.value (c : StringColumn) (row : Nat) : Bytes :=
  slice c.data (c.offset.getD row 0) (c.offset.getD (row + 1) 0)

/-- A column after `FinalMaterializeString`. -/
structure Materialized where
  data : Bytes
  offset : List Nat
  numBytes : Nat
  size : Nat

def StringColumn.materialized (c : StringColumn) : Materialized :=
  match c.rowIds with
  | some ids =>
    let pieces := ids.map c.value
    ⟨pieces.flatten, offsets 0 pieces, pieces.flatten.length, ids.length⟩
  | none => ⟨c.data, c.offset, c.numBytes, c.size⟩

/-- The kernels that gather strings compute the row in 32 bits: the lengths of further rows, which
are summed up, are never written. -/
def finalMaterializeString (c : StringColumn) : Except Exception Materialized :=
  match c.rowIds with
  | some ids => if 2 ^ 32 < ids.length then .error .fault else .ok c.materialized
  | none => .ok c.materialized

/-- An entry of `create_cpu_strings`, for the place `entry` on the host; `junk` is what its memory
held on the GPU. The length has 32 bits. -/
def createCpuString (junk : Memory UInt8) (m : Materialized) (cpuChars entry idx : Nat) : Bytes :=
  let strOffset := m.offset.getD idx 0
  let strLength := m.offset.getD (idx + 1) 0 - strOffset
  if strLength ≤ 12 then
    bytesOf 4 strLength ++ slice m.data strOffset (strOffset + strLength) ++
      read junk (entry + 4 + strLength) (12 - strLength)
  else bytesOf 4 strLength ++ read junk (entry + 4) 4 ++ bytesOf 8 (cpuChars + strOffset)

/-- The characters and the entries of a column on the host. -/
def copied (junk : Memory UInt8) (m : Materialized) (cpuChars cpuStrings : Nat)
    (memory : Memory UInt8) : Memory UInt8 :=
  let memory := write memory cpuChars (m.data.take m.numBytes)
  write memory cpuStrings ((List.range m.size).map fun idx =>
    createCpuString junk m cpuChars (cpuStrings + idx * sizeofString) idx).flatten

/-- The kernel computes the index of a string in 32 bits; further entries, which are copied too, are
never written. -/
def materializeStringColumnToDuckdbFormat (junk : Memory UInt8) (m : Materialized)
    (cpuChars cpuStrings : Nat) (memory : Memory UInt8) : Except Exception (Memory UInt8) :=
  if 2 ^ 32 < m.size then .error .fault else .ok (copied junk m cpuChars cpuStrings memory)

/-- The buffers of a column: where its entries and its characters are written. -/
structure Written where
  column : StringColumn
  strings : Nat
  chars : Nat

/-- The loop over the columns; it returns at a column without rows. -/
def collect (junk : Memory UInt8) : List Column → (strings chars : Nat) → Memory UInt8 →
    Except Exception (Memory UInt8 × List Written)
  | [], _, _, memory => .ok (memory, [])
  | .other rowCount :: rest, strings, chars, memory =>
    if rowCount = 0 then .ok (memory, []) else collect junk rest strings chars memory
  | .string column :: rest, strings, chars, memory =>
    if column.rowCount = 0 then .ok (memory, []) else do
      let m ← finalMaterializeString column
      let memory ← materializeStringColumnToDuckdbFormat junk m chars strings memory
      let (memory, later) ← collect junk rest (strings + m.size * sizeofString)
        (chars + m.numBytes) memory
      .ok (memory, ⟨column, strings, chars⟩ :: later)

/-- The string part of `Sink`, with the buffer at an address. -/
def sink (junk : Memory UInt8) (r : Relation) (combinedBuffer : Nat) (memory : Memory UInt8) :
    Except Exception (Memory UInt8 × List Written) :=
  collect junk r.columns combinedBuffer
    (combinedBuffer + allColumnsNumStrings r * sizeofString) memory

/-- The bytes of a `string_t`. -/
def readString (memory : Memory UInt8) (entry : Nat) : Bytes :=
  let length := unsigned (read memory entry 4)
  if length ≤ 12 then read memory (entry + 4) length
  else read memory (unsigned (read memory (entry + 8) 8)) length

end Model

section Meaning

/-- The string of a row. -/
def StringColumn.row (c : StringColumn) (row : Nat) : Bytes :=
  match c.rowIds with
  | some ids => c.value (ids.getD row 0)
  | none => c.value row

/-- The writes stay in the parts reserved for entries and for characters, and the entries
delivered are the strings of the rows. -/
structure Right (r : Relation) (combinedBuffer : Nat) (memory : Memory UInt8)
    (written : List Written) : Prop where
  within : ∀ w ∈ written,
    w.strings + w.column.materialized.size * sizeofString ≤
        combinedBuffer + allColumnsNumStrings r * sizeofString ∧
      w.chars + w.column.materialized.numBytes ≤
        combinedBuffer + allColumnsNumStrings r * sizeofString + allColumnsTotalChars r
  equal : ∀ w ∈ written, ∀ row < r.rows,
    readString memory (w.strings + row * sizeofString) = w.column.row row

/-- The sink returns and is right. -/
def Delivered (r : Relation) (combinedBuffer : Nat)
    (outcome : Except Exception (Memory UInt8 × List Written)) : Prop :=
  ∃ memory written, outcome = .ok (memory, written) ∧ Right r combinedBuffer memory written

/-- The bytes of a column once its rows are gathered. -/
def StringColumn.gathered (c : StringColumn) : Nat :=
  match c.rowIds with
  | some ids => (ids.map fun id => c.offset.getD (id + 1) 0 - c.offset.getD id 0).sum
  | none => c.numBytes

/-- The base columns have as many rows and bytes as the result, no row of strings needs more than 32
bits for its place, and no string for its length. -/
structure Fits (r : Relation) : Prop where
  near : ∀ c ∈ r.strings, r.rows ≤ 2 ^ 32
  strings : r.strings.length * r.rows ≤ (r.strings.map StringColumn.size).sum
  chars : (r.strings.map StringColumn.gathered).sum ≤ (r.strings.map StringColumn.numBytes).sum
  short : ∀ c ∈ r.strings, ∀ row < r.rows, (c.row row).length < 2 ^ 32

end Meaning

section Materialization

variable {c : StringColumn} {row : Nat}

theorem offset_le {first second : Nat} (order : first ≤ second) (last : second ≤ c.size) :
    c.offset.getD first 0 ≤ c.offset.getD second 0 := by
  have length := c.entries
  rw [List.getD_eq_getElem _ _ (by omega), List.getD_eq_getElem _ _ (by omega)]
  obtain rfl | less := Nat.eq_or_lt_of_le order
  · exact le_rfl
  · exact List.pairwise_iff_getElem.mp c.ordered first second _ _ less

theorem offset_inside (last : row ≤ c.size) : c.offset.getD row 0 ≤ c.numBytes := by
  have length := c.entries
  rw [List.getD_eq_getElem _ _ (by omega)]
  exact c.inside _ (List.getElem_mem _)

theorem value_length (inside : row < c.size) :
    (c.value row).length = c.offset.getD (row + 1) 0 - c.offset.getD row 0 := by
  have last := @offset_inside c (row + 1) inside
  have counted := c.counted
  rw [StringColumn.value, slice, List.length_take, List.length_drop]
  omega

@[simp] theorem materialized_size : c.materialized.size = c.rowCount := by
  cases late : c.rowIds <;> simp [StringColumn.materialized, StringColumn.rowCount, late]

@[simp] theorem materialized_numBytes : c.materialized.numBytes = c.gathered := by
  cases late : c.rowIds with
  | none => simp [StringColumn.materialized, StringColumn.gathered, late]
  | some ids =>
    simp only [StringColumn.materialized, StringColumn.gathered, late, List.length_flatten,
      List.map_map]
    congr 1
    exact List.map_congr_left fun id member => value_length (c.known ids late id member)

/-- What the kernel that makes the entries finds. -/
structure Sound (c : StringColumn) (m : Materialized) : Prop where
  counted : m.numBytes ≤ m.data.length
  order : ∀ row < c.rowCount, m.offset.getD row 0 ≤ m.offset.getD (row + 1) 0
  inside : ∀ row < c.rowCount, m.offset.getD (row + 1) 0 ≤ m.numBytes
  value : ∀ row < c.rowCount,
    slice m.data (m.offset.getD row 0) (m.offset.getD (row + 1) 0) = c.row row

theorem materialized_sound : Sound c c.materialized := by
  cases late : c.rowIds with
  | none =>
    have count : c.rowCount = c.size := by simp [StringColumn.rowCount, late]
    simp only [StringColumn.materialized, late]
    exact ⟨c.counted, fun row inside => offset_le (Nat.le_succ row) (count ▸ inside),
      fun row inside => offset_inside (count ▸ inside),
      fun row _ => by rw [StringColumn.row, late]; rfl⟩
  | some ids =>
    have count : c.rowCount = (ids.map c.value).length := by simp [StringColumn.rowCount, late]
    simp only [StringColumn.materialized, late]
    refine ⟨le_rfl, fun row inside => ?_, fun row inside => ?_, fun row inside => ?_⟩
    · rw [count] at inside
      rw [offsets_get _ _ inside.le, offsets_get _ _ inside,
        List.take_succ_eq_append_getElem inside, List.flatten_append, List.length_append]
      omega
    · rw [count] at inside
      rw [offsets_get _ _ inside, Nat.zero_add]
      exact ((List.take_sublist _ _).flatten).length_le
    · rw [count] at inside
      have known : row < ids.length := by simpa using inside
      rw [offsets_get _ _ inside.le, offsets_get _ _ inside, Nat.zero_add, Nat.zero_add,
        slice_flatten _ inside, StringColumn.row, late, List.getElem_map]
      simp only [List.getD_eq_getElem _ _ known]

end Materialization

section Entries

variable {c : StringColumn} {m : Materialized} {junk memory : Memory UInt8}
  {cpuChars entry idx : Nat}

theorem unsigned_bytesOf_mod (size n : Nat) : unsigned (bytesOf size n) = n % 256 ^ size := by
  have same : bytesOf size n = bytesOf size (n % 256 ^ size) := by
    induction size generalizing n with
    | zero => rfl
    | succ size ih =>
      have digit : n % 256 ^ (size + 1) % 256 = n % 256 :=
        Nat.mod_mod_of_dvd n (Dvd.intro_left (256 ^ size) rfl)
      have rest : n % 256 ^ (size + 1) / 256 = n / 256 % 256 ^ size := by
        rw [pow_succ', Nat.mod_mul_right_div_self]
      rw [bytesOf, bytesOf, digit, rest, ← ih (n / 256)]
  rw [same, unsigned_bytesOf _ _ (Nat.mod_lt n (Nat.pow_pos (by decide)))]

theorem createCpuString_length (sound : Sound c m) (inside : idx < c.rowCount) :
    (createCpuString junk m cpuChars entry idx).length = 16 := by
  have order := sound.order idx inside
  have last := sound.inside idx inside
  have counted := sound.counted
  rw [createCpuString]
  split
  · simp only [List.length_append, bytesOf_length, read_length, slice, List.length_take,
      List.length_drop]
    omega
  · simp

theorem createCpuString_take : (createCpuString junk m cpuChars entry idx).take 4 =
    bytesOf 4 (m.offset.getD (idx + 1) 0 - m.offset.getD idx 0) := by
  rw [createCpuString]
  split
  · rw [List.append_assoc, List.take_left' (bytesOf_length 4 _)]
  · rw [List.append_assoc, List.take_left' (bytesOf_length 4 _)]

/-- The length that is read has 32 bits. -/
theorem readString_length (sound : Sound c m) (inside : idx < c.rowCount)
    (placed : read memory entry 16 = createCpuString junk m cpuChars entry idx) :
    (readString memory entry).length = (c.row idx).length % 2 ^ 32 := by
  have length : (c.row idx).length = m.offset.getD (idx + 1) 0 - m.offset.getD idx 0 := by
    have last := sound.inside idx inside
    have counted := sound.counted
    rw [← sound.value idx inside, slice, List.length_take, List.length_drop]
    omega
  have first : read memory entry 4 =
      bytesOf 4 (m.offset.getD (idx + 1) 0 - m.offset.getD idx 0) := by
    have part := @read_part _ memory entry 16 0 4 (by decide)
    rwa [placed, List.drop_zero, createCpuString_take] at part
  rw [readString, first, unsigned_bytesOf_mod, length]
  split <;> rw [read_length] <;> rfl

/-- An entry with a length of 32 bits is the string, if the characters are where it points. -/
theorem readString_row (sound : Sound c m) (inside : idx < c.rowCount)
    (placed : read memory entry 16 = createCpuString junk m cpuChars entry idx)
    (copied : read memory cpuChars m.numBytes = m.data.take m.numBytes)
    (addressable : cpuChars + m.numBytes ≤ 2 ^ 64)
    (short : (c.row idx).length < 2 ^ 32) : readString memory entry = c.row idx := by
  have order := sound.order idx inside
  have last := sound.inside idx inside
  have counted := sound.counted
  have value := sound.value idx inside
  have length : (c.row idx).length = m.offset.getD (idx + 1) 0 - m.offset.getD idx 0 := by
    rw [← value, slice, List.length_take, List.length_drop]
    omega
  rw [length] at short
  have first : read memory entry 4 =
      bytesOf 4 (m.offset.getD (idx + 1) 0 - m.offset.getD idx 0) := by
    have part := @read_part _ memory entry 16 0 4 (by decide)
    rwa [placed, List.drop_zero, createCpuString_take] at part
  have counted_length : unsigned (read memory entry 4) =
      m.offset.getD (idx + 1) 0 - m.offset.getD idx 0 := by
    rw [first, unsigned_bytesOf_mod]
    exact Nat.mod_eq_of_lt short
  rw [readString, counted_length]
  by_cases inline : m.offset.getD (idx + 1) 0 - m.offset.getD idx 0 ≤ 12
  · have part := @read_part _ memory entry 16 4
      (m.offset.getD (idx + 1) 0 - m.offset.getD idx 0) (by omega)
    have stop : m.offset.getD idx 0 + (m.offset.getD (idx + 1) 0 - m.offset.getD idx 0) =
        m.offset.getD (idx + 1) 0 := by omega
    rw [placed, createCpuString] at part
    simp only [if_pos inline, List.append_assoc] at part
    rw [List.drop_left' (bytesOf_length 4 _), stop, value, List.take_left' length] at part
    simp only [if_pos inline]
    exact part
  · have part := @read_part _ memory entry 16 8 8 (by decide)
    rw [placed, createCpuString] at part
    simp only [if_neg inline] at part
    rw [List.drop_left' (by simp), List.take_of_length_le (by simp)] at part
    have pointer : unsigned (read memory (entry + 8) 8) = cpuChars + m.offset.getD idx 0 := by
      rw [part, unsigned_bytesOf_mod]
      exact Nat.mod_eq_of_lt (by omega)
    simp only [if_neg inline]
    rw [pointer, @read_part _ memory cpuChars m.numBytes _ _ (by omega), copied, ← value, slice,
      List.drop_take,
      List.take_take, Nat.min_eq_left (by omega)]

end Entries

section Loop

variable {c : StringColumn} {junk memory memory' : Memory UInt8} {strings chars : Nat}
  {columns : List Column} {rows : Nat}

/-- The entries and the characters of a column are where they were written. -/
structure Placed (junk memory : Memory UInt8) (w : Written) : Prop where
  entries : ∀ row < w.column.rowCount, read memory (w.strings + row * sizeofString) 16 =
    createCpuString junk w.column.materialized w.chars
      (w.strings + row * sizeofString) row
  chars : read memory w.chars w.column.gathered =
    w.column.materialized.data.take w.column.gathered

theorem entries_length : ((List.range c.rowCount).map fun idx =>
    createCpuString junk c.materialized chars (strings + idx * sizeofString)
      idx).flatten.length = c.rowCount * sizeofString := by
  have each : ∀ piece ∈ (List.range c.rowCount).map fun idx =>
      createCpuString junk c.materialized chars (strings + idx * sizeofString) idx,
      piece.length = sizeofString := by
    intro piece member
    obtain ⟨idx, inside, rfl⟩ := List.mem_map.mp member
    exact createCpuString_length materialized_sound (List.mem_range.mp inside)
  have all := take_flatten_length _ each le_rfl
  rwa [List.take_length, List.length_map, List.length_range] at all

theorem chars_length : (c.materialized.data.take
    c.materialized.numBytes).length = c.gathered := by
  rw [List.length_take, Nat.min_eq_left materialized_sound.counted, materialized_numBytes]

theorem step_outside {a : Nat}
    (strings_apart : a < strings ∨ strings + c.rowCount * sizeofString ≤ a)
    (chars_apart : a < chars ∨ chars + c.gathered ≤ a) :
    copied junk c.materialized chars strings memory a =
      memory a := by
  simp only [copied, materialized_size]
  rw [write_outside (by rwa [entries_length]), write_outside (by rwa [chars_length])]

theorem step_placed (apart : strings + c.rowCount * sizeofString ≤ chars) :
    Placed junk (copied junk c.materialized chars
      strings memory) ⟨c, strings, chars⟩ := by
  simp only [copied, materialized_size]
  constructor
  · intro row inside
    have whole := @entries_length c junk strings chars
    have room : row * sizeofString + 16 ≤ c.rowCount * sizeofString := by
      have := Nat.mul_le_mul_right sizeofString inside
      rwa [Nat.succ_mul] at this
    have each : ∀ piece ∈ (List.range c.rowCount).map fun idx =>
        createCpuString junk c.materialized chars (strings + idx * sizeofString) idx,
        piece.length = sizeofString := by
      intro piece member
      obtain ⟨idx, small, rfl⟩ := List.mem_map.mp member
      exact createCpuString_length materialized_sound (List.mem_range.mp small)
    have piece := slice_multiple _ each (by simpa using inside)
    rw [slice, Nat.succ_mul, Nat.add_sub_cancel_left] at piece
    simp only [List.getElem_map, List.getElem_range] at piece
    rw [read_write (by rwa [whole])]
    exact piece
  · rw [read_write_outside (by rw [entries_length]; exact .inl apart)]
    have here := @read_write UInt8 memory chars 0 c.gathered
      (c.materialized.data.take c.materialized.numBytes)
      (by rw [chars_length, Nat.zero_add])
    rw [Nat.add_zero, List.drop_zero, List.take_take, materialized_numBytes, Nat.min_self] at here
    rwa [materialized_numBytes]

/-- What is written later leaves a column where it is. -/
theorem Placed.kept {w : Written} (placed : Placed junk memory w)
    (entries_same : ∀ a, w.strings ≤ a → a < w.strings + w.column.rowCount * sizeofString →
      memory a = memory' a)
    (chars_same : ∀ a, w.chars ≤ a → a < w.chars + w.column.gathered → memory a = memory' a) :
    Placed junk memory' w := by
  constructor
  · intro row inside
    have room : row * sizeofString + 16 ≤ w.column.rowCount * sizeofString := by
      have := Nat.mul_le_mul_right sizeofString inside
      rwa [Nat.succ_mul] at this
    rw [← placed.entries row inside]
    exact (read_congr fun a low high => entries_same a (by omega) (by omega)).symm
  · rw [← placed.chars]
    exact (read_congr chars_same).symm

/-- The strings of the columns of a list. -/
def stringsOf (columns : List Column) : List StringColumn := columns.filterMap Column.asString

def entriesOf (columns : List Column) : Nat := ((stringsOf columns).map StringColumn.rowCount).sum

def charsOf (columns : List Column) : Nat := ((stringsOf columns).map StringColumn.gathered).sum

/-- A column of strings with rows is collected if and only if its rows are reached. -/
theorem collect_string (some : c.rowCount ≠ 0) {out : Memory UInt8 × List Written} :
    collect junk (.string c :: columns) strings chars memory = .ok out ↔ c.rowCount ≤ 2 ^ 32 ∧
      ∃ later, collect junk columns (strings + c.rowCount * sizeofString) (chars + c.gathered)
          (copied junk c.materialized chars strings memory) = .ok (out.1, later) ∧
        out.2 = ⟨c, strings, chars⟩ :: later := by
  rw [collect, if_neg some]
  constructor
  · intro run
    obtain ⟨m, made, rest⟩ := bind_ok_iff.mp run
    obtain rfl : m = c.materialized := by
      rw [finalMaterializeString] at made
      split at made
      · split at made <;> cases made
        rfl
      · cases made
        rfl
    obtain ⟨memory', written, rest'⟩ := bind_ok_iff.mp rest
    rw [materializeStringColumnToDuckdbFormat] at written
    split at written
    · cases written
    case isFalse near =>
      obtain ⟨⟨memory'', later⟩, collected, last⟩ := bind_ok_iff.mp rest'
      cases written
      cases last
      rw [materialized_size] at near
      rw [materialized_size, materialized_numBytes] at collected
      exact ⟨Nat.not_lt.mp near, later, collected, rfl⟩
  · rintro ⟨near, later, collected, same⟩
    have made : finalMaterializeString c = .ok c.materialized := by
      rw [finalMaterializeString]
      cases late : c.rowIds with
      | none => rfl
      | some ids =>
        rw [StringColumn.rowCount, late] at near
        exact if_neg (Nat.not_lt.mpr near)
    rw [← materialized_size] at near
    refine bind_ok_iff.mpr ⟨_, made, bind_ok_iff.mpr ⟨_, if_neg (Nat.not_lt.mpr near), ?_⟩⟩
    rw [materialized_size, materialized_numBytes]
    exact bind_ok_iff.mpr ⟨_, collected, congrArg Except.ok (Prod.ext rfl same.symm)⟩

/-- What the loop has, for a list of columns of a number of rows. -/
structure Collected (junk : Memory UInt8) (columns : List Column) (rows strings chars : Nat)
    (memory : Memory UInt8) (out : Memory UInt8 × List Written) : Prop where
  each : ∀ column ∈ columns, column.rowCount = rows
  some : rows ≠ 0
  run : collect junk columns strings chars memory = .ok out

variable {out : Memory UInt8 × List Written}

theorem Collected.other {rowCount : Nat}
    (h : Collected junk (.other rowCount :: columns) rows strings chars memory out) :
    Collected junk columns rows strings chars memory out := by
  have count : rowCount = rows := h.each _ List.mem_cons_self
  have run := h.run
  rw [collect, if_neg (by rw [count]; exact h.some)] at run
  exact ⟨fun column member => h.each column (List.mem_cons_of_mem _ member), h.some, run⟩

theorem Collected.string
    (h : Collected junk (.string c :: columns) rows strings chars memory out) :
    rows ≤ 2 ^ 32 ∧ ∃ later, Collected junk columns rows (strings + c.rowCount * sizeofString)
        (chars + c.gathered) (copied junk c.materialized chars strings memory) (out.1, later) ∧
      out.2 = ⟨c, strings, chars⟩ :: later := by
  have count : c.rowCount = rows := h.each _ List.mem_cons_self
  obtain ⟨near, later, run, same⟩ :=
    (collect_string (by rw [count]; exact h.some)).mp h.run
  exact ⟨count ▸ near, later,
    ⟨fun column member => h.each column (List.mem_cons_of_mem _ member), h.some, run⟩, same⟩

theorem entriesOf_string : entriesOf (.string c :: columns) = c.rowCount + entriesOf columns := rfl

theorem charsOf_string : charsOf (.string c :: columns) = c.gathered + charsOf columns := rfl

/-- The loop returns if and only if all rows of strings are reached. -/
theorem collect_returns_iff (some : rows ≠ 0) (each : ∀ column ∈ columns, column.rowCount = rows) :
    (∃ out, collect junk columns strings chars memory = .ok out) ↔
      ∀ c ∈ stringsOf columns, rows ≤ 2 ^ 32 := by
  induction columns generalizing strings chars memory with
  | nil => exact iff_of_true ⟨_, rfl⟩ fun _ member => by cases member
  | cons first rest ih =>
    have count := each _ List.mem_cons_self
    have others : ∀ column ∈ rest, column.rowCount = rows :=
      fun column member => each column (List.mem_cons_of_mem _ member)
    cases first with
    | other rowCount =>
      rw [collect, if_neg (by rw [show rowCount = rows from count]; exact some)]
      exact ih others
    | string c =>
      have count : c.rowCount = rows := count
      have listed : stringsOf (.string c :: rest) = c :: stringsOf rest := rfl
      have some' : c.rowCount ≠ 0 := by rwa [count]
      rw [listed, List.forall_mem_cons, ← ih others]
      constructor
      · rintro ⟨out, run⟩
        obtain ⟨near, later, run, -⟩ := (collect_string some').mp run
        exact ⟨count ▸ near, _, run⟩
      · rintro ⟨near, ⟨memory', later⟩, run⟩
        exact ⟨(memory', ⟨c, strings, chars⟩ :: later),
          (collect_string some').mpr ⟨count ▸ near, later, run, rfl⟩⟩

theorem Collected.outside (h : Collected junk columns rows strings chars memory out) {a : Nat}
    (strings_apart : a < strings ∨ strings + entriesOf columns * sizeofString ≤ a)
    (chars_apart : a < chars ∨ chars + charsOf columns ≤ a) : out.1 a = memory a := by
  induction columns generalizing strings chars memory out with
  | nil =>
    cases h.run
    rfl
  | cons first rest ih =>
    cases first with
    | other rowCount => exact ih h.other strings_apart chars_apart
    | string c =>
      obtain ⟨-, later, h, -⟩ := h.string
      rw [entriesOf_string, Nat.add_mul] at strings_apart
      rw [charsOf_string] at chars_apart
      exact (ih h (by omega) (by omega)).trans (step_outside (by omega) (by omega))

/-- With rows, the loop writes every column of strings, one behind the other. -/
theorem Collected.listed (h : Collected junk columns rows strings chars memory out) :
    out.2.map Written.column = stringsOf columns := by
  induction columns generalizing strings chars memory out with
  | nil =>
    cases h.run
    rfl
  | cons first rest ih =>
    cases first with
    | other rowCount => exact ih h.other
    | string c =>
      obtain ⟨-, later, h, same⟩ := h.string
      rw [same]
      exact congrArg (c :: ·) (ih h)

theorem Collected.placed (h : Collected junk columns rows strings chars memory out)
    (apart : strings + entriesOf columns * sizeofString ≤ chars) :
    ∀ w ∈ out.2, Placed junk out.1 w := by
  induction columns generalizing strings chars memory out with
  | nil =>
    cases h.run
    exact fun w member => by cases member
  | cons first rest ih =>
    cases first with
    | other rowCount => exact ih h.other apart
    | string c =>
      obtain ⟨-, later, h, same⟩ := h.string
      rw [entriesOf_string, Nat.add_mul] at apart
      rw [same]
      refine List.forall_mem_cons.mpr ⟨?_, ih h (by omega)⟩
      refine (@step_placed c junk memory strings chars (by omega)).kept (fun a low high => ?_)
        fun a low high => ?_
      · exact (h.outside (by simp only at low high; omega)
          (by simp only at low high; omega)).symm
      · exact (h.outside (by simp only at low high; omega)
          (by simp only at low high; omega)).symm

/-- All writes stay in the parts exactly when the sums do. -/
theorem Collected.within_iff (h : Collected junk columns rows strings chars memory out)
    {stringsEnd charsEnd : Nat} (strings_start : strings ≤ stringsEnd)
    (chars_start : chars ≤ charsEnd) :
    (∀ w ∈ out.2, w.strings + w.column.materialized.size * sizeofString ≤ stringsEnd ∧
        w.chars + w.column.materialized.numBytes ≤ charsEnd) ↔
      strings + entriesOf columns * sizeofString ≤ stringsEnd ∧
        chars + charsOf columns ≤ charsEnd := by
  induction columns generalizing strings chars memory out with
  | nil =>
    cases h.run
    simpa [entriesOf, charsOf, stringsOf] using ⟨strings_start, chars_start⟩
  | cons first rest ih =>
    cases first with
    | other rowCount => exact ih h.other strings_start chars_start
    | string c =>
      obtain ⟨-, later, h, same⟩ := h.string
      simp only [materialized_size, materialized_numBytes] at ih ⊢
      rw [same, List.forall_mem_cons, entriesOf_string, charsOf_string, Nat.add_mul]
      constructor
      · rintro ⟨⟨first_strings, first_chars⟩, later⟩
        have sums := (ih h first_strings first_chars).mp later
        omega
      · rintro ⟨all_strings, all_chars⟩
        refine ⟨by simp only; omega, (ih h (by omega) (by omega)).mpr (by omega)⟩

end Loop

section Results

variable {r : Relation} {junk memory : Memory UInt8} {combinedBuffer : Nat}

theorem strings_rowCount {c : StringColumn} (member : c ∈ r.strings) : c.rowCount = r.rows := by
  obtain ⟨column, inside, string⟩ := List.mem_filterMap.mp member
  cases column with
  | string c' =>
    cases string
    exact r.each _ inside
  | other _ => cases string

theorem sums_iff :
    (combinedBuffer + entriesOf r.columns * sizeofString ≤
        combinedBuffer + allColumnsNumStrings r * sizeofString ∧
      combinedBuffer + allColumnsNumStrings r * sizeofString + charsOf r.columns ≤
        combinedBuffer + allColumnsNumStrings r * sizeofString + allColumnsTotalChars r) ↔
      r.strings.length * r.rows ≤ (r.strings.map StringColumn.size).sum ∧
        (r.strings.map StringColumn.gathered).sum ≤
          (r.strings.map StringColumn.numBytes).sum := by
  have entries : entriesOf r.columns = r.strings.length * r.rows := by
    change (r.strings.map StringColumn.rowCount).sum = _
    rw [List.map_congr_left fun c member => strings_rowCount member, List.map_const',
      List.sum_replicate, smul_eq_mul]
  have chars : charsOf r.columns = (r.strings.map StringColumn.gathered).sum := rfl
  rw [entries, chars, allColumnsNumStrings, allColumnsTotalChars, sizeofString]
  omega

theorem sink_empty (none : r.rows = 0) :
    ∃ memory', sink junk r combinedBuffer memory = .ok (memory', []) := by
  rw [sink]
  cases columns : r.columns with
  | nil => exact ⟨_, rfl⟩
  | cons first rest =>
    have count : first.rowCount = 0 := by
      rw [← none]
      exact r.each first (by rw [columns]; exact List.mem_cons_self)
    cases first with
    | string c =>
      have count : c.rowCount = 0 := count
      rw [collect, if_pos count]
      exact ⟨_, rfl⟩
    | other rowCount =>
      have count : rowCount = 0 := count
      rw [collect, if_pos count]
      exact ⟨_, rfl⟩

/-- The loop of a sink of rows. -/
theorem sink_collected {out : Memory UInt8 × List Written} (some : r.rows ≠ 0)
    (run : sink junk r combinedBuffer memory = .ok out) :
    Collected junk r.columns r.rows combinedBuffer
      (combinedBuffer + allColumnsNumStrings r * sizeofString) memory out :=
  ⟨r.each, some, run⟩

/-- What has been written is right exactly when the sums and the lengths fit. -/
theorem right_iff {out : Memory UInt8 × List Written} (some : r.rows ≠ 0)
    (allocated : combinedBuffer + allColumnsNumStrings r * sizeofString +
      allColumnsTotalChars r ≤ 2 ^ 64)
    (run : sink junk r combinedBuffer memory = .ok out) :
    Right r combinedBuffer out.1 out.2 ↔
      r.strings.length * r.rows ≤ (r.strings.map StringColumn.size).sum ∧
        (r.strings.map StringColumn.gathered).sum ≤ (r.strings.map StringColumn.numBytes).sum ∧
          ∀ c ∈ r.strings, ∀ row < r.rows, (c.row row).length < 2 ^ 32 := by
  have collected := sink_collected some run
  have within_iff := (collected.within_iff (Nat.le_add_right _ _) (Nat.le_add_right _ _)).trans
    sums_iff
  have known : ∀ w ∈ out.2, w.column ∈ r.strings := by
    intro w written
    change w.column ∈ stringsOf r.columns
    rw [← collected.listed]
    exact List.mem_map_of_mem written
  constructor
  · rintro ⟨within, equal⟩
    obtain ⟨strings, chars⟩ := within_iff.mp within
    refine ⟨strings, chars, fun c member row inside => ?_⟩
    change c ∈ stringsOf r.columns at member
    rw [← collected.listed] at member
    obtain ⟨w, written, rfl⟩ := List.mem_map.mp member
    have count : row < w.column.rowCount := by
      rwa [strings_rowCount (known w written)]
    have length := readString_length materialized_sound count
      ((collected.placed (sums_iff.mpr ⟨strings, chars⟩).1 w written).entries row count)
    rw [equal w written row inside] at length
    rw [length]
    exact Nat.mod_lt _ (by decide)
  · rintro ⟨strings, chars, short⟩
    have within := within_iff.mpr ⟨strings, chars⟩
    refine ⟨within, fun w written row inside => ?_⟩
    have member := known w written
    have count : row < w.column.rowCount := by rwa [strings_rowCount member]
    have there := collected.placed (sums_iff.mpr ⟨strings, chars⟩).1 w written
    refine readString_row materialized_sound count (there.entries row count) ?_
      ((within w written).2.trans allocated) (short _ member row inside)
    rw [materialized_numBytes]
    exact there.chars

/-- The writes stay in their parts and the entries delivered are the strings exactly when there
are no rows, or all rows are reached and the base columns hold as much as the result. -/
theorem sink_delivered_iff (junk : Memory UInt8) (r : Relation) (combinedBuffer : Nat)
    (memory : Memory UInt8)
    (allocated : combinedBuffer + allColumnsNumStrings r * sizeofString +
      allColumnsTotalChars r ≤ 2 ^ 64) :
    Delivered r combinedBuffer (sink junk r combinedBuffer memory) ↔ r.rows = 0 ∨ Fits r := by
  by_cases none : r.rows = 0
  · obtain ⟨memory', run⟩ := @sink_empty r junk memory combinedBuffer none
    exact iff_of_true ⟨memory', [], run, by simp, by simp⟩ (.inl none)
  rw [or_iff_right none]
  have returns := @collect_returns_iff junk memory combinedBuffer
    (combinedBuffer + allColumnsNumStrings r * sizeofString) r.columns r.rows none r.each
  constructor
  · rintro ⟨memory', written, run, right⟩
    obtain ⟨strings, chars, short⟩ := (right_iff none allocated run).mp right
    exact ⟨returns.mp ⟨_, run⟩, strings, chars, short⟩
  · rintro ⟨near, strings, chars, short⟩
    obtain ⟨⟨memory', written⟩, run⟩ := returns.mpr near
    exact ⟨memory', written, run, (right_iff none allocated run).mpr ⟨strings, chars, short⟩⟩

/-- Rows in another order, next to numbers. -/
def reordered : Relation where
  rows := 2
  columns := [.other 2, .string {
    data := [97, 98, 99], offset := [0, 2, 3], numBytes := 3, size := 2, rowIds := some [1, 0]
    entries := rfl, ordered := by decide, inside := by decide, counted := by decide
    known := by rintro _ ⟨⟩; decide }]
  each := by simp [Column.rowCount, StringColumn.rowCount]

/-- One string, joined with two rows. -/
def fanOut : Relation where
  rows := 2
  columns := [.string {
    data := [97], offset := [0, 1], numBytes := 1, size := 1, rowIds := some [0, 0]
    entries := rfl, ordered := by decide, inside := by decide, counted := by decide
    known := by rintro _ ⟨⟩; decide }]
  each := by simp [Column.rowCount, StringColumn.rowCount]

theorem reordered_delivered : Delivered reordered 4096
    (sink (fun _ => 0) reordered 4096 fun _ => 0) :=
  (sink_delivered_iff (fun _ => 0) reordered 4096 (fun _ => 0) (by decide)).mpr
    (.inr ⟨by decide, by decide, by decide, by decide⟩)

/-- Two entries are written where one is reserved. -/
theorem fanOut_overrun : ¬ ∀ (junk : Memory UInt8) (r : Relation) (combinedBuffer : Nat)
    (memory : Memory UInt8), combinedBuffer + allColumnsNumStrings r * sizeofString +
      allColumnsTotalChars r ≤ 2 ^ 64 →
        Delivered r combinedBuffer (sink junk r combinedBuffer memory) := by
  intro delivered
  obtain ⟨memory, written, run, right⟩ := delivered (fun _ => 0) fanOut 0 (fun _ => 0) (by decide)
  obtain ⟨strings, -⟩ := (right_iff (by decide) (by decide) run).mp right
  revert strings
  decide

end Results

end StringBuffers
