import Mathlib
import SiriusGpu.ByteMemory
import SiriusGpu.ColumnFormat
import SiriusGpu.FallibleMaps
import SiriusGpu.GpuMemory
import SiriusGpu.IntegerArithmetic

/-!
# Substrings

The function evaluator cuts strings with constants for the start and the length. One branch gives
them to `slice_strings`, the other to the kernels of `DoSubstring`.
-/

namespace SubstringFunction

open ByteMemory ColumnFormat FallibleMaps
open GpuMemory (Exception)
open IntegerArithmetic (getValueIn)

section Model

/-- A strings column: places of 64 bits, and characters. -/
structure StringsColumn where
  offsets : List Int
  chars : List UInt8

def StringsColumn.size (c : StringsColumn) : Nat := c.offsets.length - 1

/-- The result of an operation on `cudf::size_type`. -/
def sizeType (x : Int) : Except Exception Int :=
  if -2 ^ 31 ≤ x ∧ x < 2 ^ 31 then .ok x else .error .fault

def uint64 (x : Int) : Int := x % 2 ^ 64

def int64 (x : Int) : Int := Int.bmod x (2 ^ 64)

/-- The branch with `slice_strings`. -/
def cudfSubstring (sliceStrings : StringsColumn → Int → Int → Except Exception StringsColumn)
    (input : StringsColumn) (start len : Int) : Except Exception StringsColumn := do
  let startValue ← getValueIn (-2 ^ 31) (2 ^ 31) start
  let cudfStart ← sizeType (startValue - 1)
  let lenValue ← getValueIn (-2 ^ 31) (2 ^ 31) len
  let cudfEnd ← sizeType (lenValue + cudfStart)
  sliceStrings input cudfStart cudfEnd

/-- The part of the characters that both kernels compute for a string. -/
def substringRange (input : StringsColumn) (startIdx length : Int) (tid : Nat) : Int × Int :=
  let currStrStartIdx := input.offsets.getD tid 0
  let currStrEndIdx := input.offsets.getD (tid + 1) 0
  let substringStartIdx := min (currStrStartIdx + startIdx) currStrEndIdx
  (substringStartIdx, min (substringStartIdx + length) currStrEndIdx)

def getNewLength (input : StringsColumn) (startIdx length : Int) (tid : Nat) : Int :=
  (substringRange input startIdx length tid).2 - (substringRange input startIdx length tid).1

def exclusiveSum (lengths : List Int) : List Int :=
  (List.range lengths.length).map fun i => (lengths.take i).sum

/-- The copy of a string; no byte is touched when its length is zero. -/
def substringCopyChars (input : StringsColumn) (newOffsets : List Int) (startIdx length : Int)
    (memory : Memory UInt8) (tid : Nat) : Except Exception (Memory UInt8) :=
  let (first, last) := substringRange input startIdx length tid
  let target := newOffsets.getD tid 0
  if first = last then .ok memory
  else if first < 0 ∨ last < first ∨ input.chars.length < last ∨ target < 0 then .error .fault
  else .ok (write memory target.toNat (slice input.chars first.toNat last.toNat))

/-- `DoSubstring`, with what its output buffer held; the number of offsets is a `size_type`. -/
def doSubstring (junk : Memory UInt8) (input : StringsColumn) (startIdx length : Int) :
    Except Exception StringsColumn := do
  let _ ← sizeType (input.size + 1)
  let lengths := (List.range input.size).map (getNewLength input startIdx length) ++ [0]
  let newOffsets := exclusiveSum lengths
  let outputBytes := newOffsets.getD input.size 0
  let memory ← (List.range input.size).foldlM
    (substringCopyChars input newOffsets startIdx length) junk
  .ok ⟨newOffsets, read memory 0 outputBytes.toNat⟩

def siriusSubstring (junk : Memory UInt8) (input : StringsColumn) (start len : Int) :
    Except Exception StringsColumn := do
  let startValue ← getValueIn 0 (2 ^ 64) start
  let lenValue ← getValueIn 0 (2 ^ 64) len
  doSubstring junk input (int64 (uint64 (startValue - 1))) (int64 lenValue)

end Model

section Meaning

/-- The column of some strings. -/
def pack (strings : List (List UInt8)) : StringsColumn :=
  ⟨(offsets 0 strings).map Int.ofNat, strings.flatten⟩

/-- The part of a sequence between two places, negative ones counted from its end. -/
def pythonSlice {α : Type} (start stop : Int) (s : List α) : List α :=
  let place (i : Int) : Nat := if i < 0 then (i + s.length).toNat else min i.toNat s.length
  slice s (place start) (place stop)

/-- The characters at `len` positions from `start` on, of which the first of the string is 1 and
the last is -1. -/
def sqlSubstring {α : Type} (start len : Int) (s : List α) : List α :=
  let first := if start < 0 then s.length + start else start - 1
  slice s first.toNat (first + len).toNat

def Ascii (strings : List (List UInt8)) : Prop := ∀ s ∈ strings, ∀ b ∈ s, b < 128

/-- Both branches give the column of the substrings, and no string reads from another. -/
structure Right (sliceStrings : StringsColumn → Int → Int → Except Exception StringsColumn)
    (junk : Memory UInt8) (strings : List (List UInt8)) (start len : Int)
    (column : StringsColumn) : Prop where
  cudf : cudfSubstring sliceStrings (pack strings) start len = .ok column
  sirius : siriusSubstring junk (pack strings) start len = .ok column
  substrings : ∀ i < strings.length, slice column.chars (column.offsets.getD i 0).toNat
    (column.offsets.getD (i + 1) 0).toNat = sqlSubstring start len (strings.getD i [])
  size : column.offsets.length = strings.length + 1
  starts : column.offsets.getD 0 0 = 0
  ordered : ∀ i < strings.length, column.offsets.getD i 0 ≤ column.offsets.getD (i + 1) 0
  ends : column.offsets.getD strings.length 0 = column.chars.length
  own : ∀ i < strings.length,
    let range := substringRange (pack strings) (int64 (uint64 (start - 1))) (int64 len) i
    range.1 = range.2 ∨ place strings i ≤ range.1 ∧ range.2 ≤ place strings (i + 1)

/-- The start is a position, or nothing is asked for, and the integers have 32 bits. -/
def Supported (strings : List (List UInt8)) (start len : Int) : Prop :=
  strings.length + 1 < 2 ^ 31 ∧ 0 ≤ len ∧ len < 2 ^ 31 ∧ start < 2 ^ 31 ∧ start + len ≤ 2 ^ 31 ∧
    (1 ≤ start ∨ start = 0 ∧ (len = 0 ∨ strings = []))

end Meaning

section Integers

variable {x low high : Int}

theorem sizeType_ok (small : -2 ^ 31 ≤ x) (great : x < 2 ^ 31) : sizeType x = .ok x := by
  rw [sizeType, if_pos ⟨small, great⟩]

theorem getValueIn_ok (small : low ≤ x) (great : x < high) : getValueIn low high x = .ok x := by
  rw [getValueIn, if_pos ⟨small, great⟩]

theorem int64_small (small : -2 ^ 63 ≤ x) (great : x < 2 ^ 63) : int64 x = x := by
  exact Int.bmod_eq_of_le_mul_two (by push_cast; omega) (by push_cast; omega)

theorem int64_uint64 : int64 (uint64 x) = int64 x := by
  rw [int64, int64, uint64]
  exact_mod_cast Int.emod_bmod x (2 ^ 64)

end Integers

section Packing

variable {strings pieces : List (List UInt8)} {i : Nat}

theorem pack_size : (pack strings).size = strings.length := by
  rw [StringsColumn.size, pack, List.length_map, offsets_length, Nat.add_sub_cancel]

theorem pack_offset (inside : i ≤ strings.length) :
    (pack strings).offsets.getD i 0 = place strings i := by
  change ((offsets 0 strings).map Int.ofNat).getD i (Int.ofNat 0) = place strings i
  rw [List.getD_map, getD_offsets inside]
  rfl

theorem pack_slice (inside : i < strings.length) :
    slice (pack strings).chars ((pack strings).offsets.getD i 0).toNat
      ((pack strings).offsets.getD (i + 1) 0).toNat = strings.getD i [] := by
  rw [pack_offset inside.le, pack_offset inside, Int.toNat_natCast, Int.toNat_natCast]
  exact slice_string inside

theorem sum_lengths (pieces : List (List UInt8)) :
    (pieces.map fun piece => (piece.length : Int)).sum = pieces.flatten.length := by
  induction pieces with
  | nil => rfl
  | cons piece rest ih =>
    rw [List.map_cons, List.sum_cons, ih, List.flatten_cons, List.length_append, Nat.cast_add]

theorem exclusiveSum_lengths (pieces : List (List UInt8)) :
    exclusiveSum ((pieces.map fun piece => (piece.length : Int)) ++ [0]) =
      (pack pieces).offsets := by
  apply List.ext_getElem
  · simp [exclusiveSum, pack]
  · intro i small _
    have inside : i ≤ pieces.length := by
      simp only [exclusiveSum, List.length_map, List.length_range, List.length_append,
        List.length_singleton] at small
      omega
    have right := @pack_offset pieces i inside
    rw [List.getD_eq_getElem _ _ (by simp [pack]; omega)] at right
    simp only [exclusiveSum, List.getElem_map, List.getElem_range]
    rw [right, List.take_append_of_le_length (by simpa using inside), ← List.map_take, sum_lengths,
      place]

end Packing

section Copying

variable {strings pieces : List (List UInt8)} {startIdx length : Int} {junk : Memory UInt8}

/-- The kernels cut a string to a piece. -/
def Cuts (strings : List (List UInt8)) (startIdx length : Int) (i : Nat) (piece : List UInt8) :
    Prop :=
  let range := substringRange (pack strings) startIdx length i
  range.2 - range.1 = piece.length ∧ (range.1 ≠ range.2 → 0 ≤ range.1 ∧
    range.2 ≤ strings.flatten.length ∧
      slice strings.flatten range.1.toNat range.2.toNat = piece)

theorem copy_piece {memory : Memory UInt8} {i : Nat} (inside : i < pieces.length)
    (cuts : Cuts strings startIdx length i (pieces.getD i [])) :
    substringCopyChars (pack strings) (pack pieces).offsets startIdx length memory i =
        .ok (write memory (place pieces i) (pieces.getD i [])) := by
  obtain ⟨size, cut⟩ := cuts
  rw [substringCopyChars, pack_offset inside.le]
  generalize substringRange (pack strings) startIdx length i = range at size cut
  obtain ⟨first, last⟩ := range
  simp only at size cut ⊢
  by_cases empty : first = last
  · have none : pieces.getD i [] = [] := List.eq_nil_of_length_eq_zero (by omega)
    rw [if_pos empty, none]
    congr 1
    funext a
    rw [write_outside (by simp only [List.length_nil]; omega)]
  · obtain ⟨low, high, same⟩ := cut empty
    have order : ¬ (first < 0 ∨ last < first ∨ ((pack strings).chars.length : Int) < last ∨
        ((place pieces i : Nat) : Int) < 0) := by
      change ¬ (first < 0 ∨ last < first ∨ (strings.flatten.length : Int) < last ∨ _)
      omega
    rw [if_neg empty, if_neg order, Int.toNat_natCast, pack, same]

/-- After the first threads the output has their pieces. -/
theorem copy_pieces (count : pieces.length = strings.length)
    (cuts : ∀ i < strings.length, Cuts strings startIdx length i (pieces.getD i [])) (k : Nat)
    (small : k ≤ strings.length) :
    ∃ memory, (List.range k).foldlM
        (substringCopyChars (pack strings) (pack pieces).offsets startIdx length) junk =
        .ok memory ∧ read memory 0 (place pieces k) = (pieces.take k).flatten := by
  induction k with
  | zero => exact ⟨junk, rfl, rfl⟩
  | succ k ih =>
    obtain ⟨memory, ran, copied⟩ := ih (by omega)
    have inside : k < pieces.length := by omega
    refine ⟨write memory (place pieces k) (pieces.getD k []), ?_, ?_⟩
    · simp only [List.range_succ, List.foldlM_append, ran, List.foldlM_cons, List.foldlM_nil, bind,
        Except.bind, copy_piece inside (cuts k (by omega))]
      rfl
    · have written := @read_write UInt8 memory (place pieces k) 0 (pieces.getD k []).length
        (pieces.getD k []) (by omega)
      rw [Nat.add_zero, List.drop_zero, List.take_length] at written
      rw [place_succ inside, read_add, read_write_outside (by omega), copied, Nat.zero_add, written,
        List.take_succ_eq_append_getElem inside, List.flatten_append,
        List.getD_eq_getElem _ _ inside]
      simp

theorem doSubstring_pieces (fits : strings.length + 1 < 2 ^ 31)
    (count : pieces.length = strings.length)
    (cuts : ∀ i < strings.length, Cuts strings startIdx length i (pieces.getD i [])) :
    doSubstring junk (pack strings) startIdx length = .ok (pack pieces) := by
  have lengths : (List.range strings.length).map
      (getNewLength (pack strings) startIdx length) =
        pieces.map fun piece => (piece.length : Int) := by
    apply List.ext_getElem
    · rw [List.length_map, List.length_range, List.length_map, count]
    · intro i small small'
      rw [List.length_map, List.length_range] at small
      rw [List.getElem_map, List.getElem_range, List.getElem_map, getNewLength,
        (cuts i small).1, List.getD_eq_getElem _ _ (by omega)]
  obtain ⟨memory, ran, copied⟩ :=
    @copy_pieces strings pieces startIdx length junk count cuts _ le_rfl
  have size : sizeType (strings.length + 1) = .ok ((strings.length : Int) + 1) := by
    have bound : ((strings.length : Int) + 1) < 2 ^ 31 := by exact_mod_cast fits
    exact sizeType_ok (by omega) bound
  have last := @pack_offset pieces strings.length count.ge
  rw [← count, place_all] at last
  rw [doSubstring, pack_size, size]
  dsimp only [bind, Except.bind]
  rw [lengths, exclusiveSum_lengths, ran]
  dsimp only
  rw [← count, last, Int.toNat_natCast, ← place_all, count, copied, ← count, List.take_length]
  rfl

end Copying

section Slicing

variable {α : Type} {s : List α} {start len : Int}

theorem slice_min (s : List α) (a b : Nat) :
    slice s (min a s.length) (min b s.length) = slice s a b := by
  obtain low | high := Nat.le_total a s.length
  · rw [Nat.min_eq_left low, slice, slice, List.take_eq_take_iff, List.length_drop]
    omega
  · rw [Nat.min_eq_right high, slice, slice, List.drop_length, List.drop_of_length_le high,
      List.take_nil, List.take_nil]

/-- From a position on, the slice of `slice_strings` is the substring. -/
theorem pythonSlice_position (position : 1 ≤ start) (some : 0 ≤ len) :
    pythonSlice (start - 1) (len + (start - 1)) s = sqlSubstring start len s := by
  rw [pythonSlice, sqlSubstring]
  simp only
  rw [if_neg (by omega), if_neg (by omega), if_neg (by omega), slice_min, Int.add_comm len]

theorem pythonSlice_nothing : pythonSlice (-1) (-1) s = sqlSubstring 0 0 s := by
  rw [pythonSlice, sqlSubstring]
  simp only
  rw [slice_self]
  rfl

end Slicing

section Ranges

variable {strings : List (List UInt8)} {start len startIdx length : Int} {i : Nat}

theorem substringRange_pack (inside : i < strings.length) :
    substringRange (pack strings) startIdx length i =
      (min (place strings i + startIdx) (place strings (i + 1)),
        min (min (place strings i + startIdx) (place strings (i + 1)) + length)
          (place strings (i + 1))) := by
  rw [substringRange, pack_offset inside.le, pack_offset inside]

/-- From a position on, the kernels cut the substring out of the string. -/
theorem cuts_position (position : 1 ≤ start) (some : 0 ≤ len) (inside : i < strings.length) :
    Cuts strings (start - 1) len i (sqlSubstring start len (strings.getD i [])) := by
  have next := place_succ inside
  have below := @place_le_all _ strings (i + 1)
  have whole := slice_string inside
  rw [Cuts, substringRange_pack inside, sqlSubstring, if_neg (by omega)]
  simp only
  generalize strings.getD i [] = s at next whole
  constructor
  · rw [slice, List.length_take, List.length_drop]
    omega
  · intro differ
    refine ⟨by omega, by omega, ?_⟩
    rw [← whole, slice_slice (show place strings i ≤ _ by omega)
      (show _ ≤ place strings (i + 1) by omega), whole, slice,
      show (min ((place strings i : Int) + (start - 1)) (place strings (i + 1))).toNat -
        place strings i = (start - 1).toNat by omega, List.take_eq_take_iff, List.length_drop]
    omega

theorem cuts_nothing (inside : i < strings.length) :
    Cuts strings (-1) 0 i (sqlSubstring 0 0 (strings.getD i [])) := by
  have order := @place_le _ strings i (i + 1) (Nat.le_succ i)
  rw [Cuts, substringRange_pack inside, sqlSubstring, if_neg (by omega)]
  simp only
  constructor
  · rw [slice, List.length_take]
    omega
  · intro differ
    omega

theorem own_position (position : 1 ≤ start) (inside : i < strings.length) :
    let range := substringRange (pack strings) (start - 1) len i
    place strings i ≤ range.1 ∧ range.2 ≤ place strings (i + 1) := by
  have order := @place_le _ strings i (i + 1) (Nat.le_succ i)
  rw [substringRange_pack inside]
  simp only
  omega

end Ranges

section Results

variable {sliceStrings : StringsColumn → Int → Int → Except Exception StringsColumn}
  {junk : Memory UInt8} {strings : List (List UInt8)} {start len : Int} {column : StringsColumn}

theorem right_of
    (cudf : cudfSubstring sliceStrings (pack strings) start len =
      .ok (pack (strings.map (sqlSubstring start len))))
    (sirius : siriusSubstring junk (pack strings) start len =
      .ok (pack (strings.map (sqlSubstring start len))))
    (own : ∀ i < strings.length,
      let range := substringRange (pack strings) (int64 (uint64 (start - 1))) (int64 len) i
      range.1 = range.2 ∨ place strings i ≤ range.1 ∧ range.2 ≤ place strings (i + 1)) :
    Right sliceStrings junk strings start len (pack (strings.map (sqlSubstring start len))) := by
  have count : (strings.map (sqlSubstring start len)).length = strings.length := List.length_map _
  refine ⟨cudf, sirius, fun i inside => ?_, ?_, ?_, fun i inside => ?_, ?_, own⟩
  · rw [pack_slice (by rwa [count]), List.getD_eq_getElem _ _ (by rwa [count]), List.getElem_map,
      List.getD_eq_getElem _ _ inside]
  · rw [pack, List.length_map, offsets_length, count]
  · rw [pack_offset (Nat.zero_le _), place_zero]
    rfl
  · rw [pack_offset (by omega), pack_offset (by omega)]
    exact Int.ofNat_le.mpr (place_le (Nat.le_succ i))
  · rw [← count, pack_offset le_rfl, place_all]
    rfl

theorem cudfSubstring_inv (ran : cudfSubstring sliceStrings (pack strings) start len = .ok column) :
    start < 2 ^ 31 ∧ len < 2 ^ 31 ∧ start + len ≤ 2 ^ 31 := by
  have value : ∀ {low high x y : Int}, getValueIn low high x = .ok y → x < high ∧ x = y := by
    intro low high x y accepted
    rw [getValueIn] at accepted
    split at accepted
    case isTrue fits =>
      cases accepted
      exact ⟨fits.2, rfl⟩
    case isFalse => cases accepted
  have size : ∀ {x y : Int}, sizeType x = .ok y → x < 2 ^ 31 ∧ x = y := by
    intro x y accepted
    rw [sizeType] at accepted
    split at accepted
    case isTrue fits =>
      cases accepted
      exact ⟨fits.2, rfl⟩
    case isFalse => cases accepted
  obtain ⟨_, first, ran⟩ := bind_ok_iff.mp ran
  obtain ⟨small, rfl⟩ := value first
  obtain ⟨_, second, ran⟩ := bind_ok_iff.mp ran
  obtain ⟨-, rfl⟩ := size second
  obtain ⟨_, third, ran⟩ := bind_ok_iff.mp ran
  obtain ⟨few, rfl⟩ := value third
  obtain ⟨_, fourth, ran⟩ := bind_ok_iff.mp ran
  obtain ⟨sum, -⟩ := size fourth
  exact ⟨small, few, by omega⟩

theorem siriusSubstring_inv (ran : siriusSubstring junk (pack strings) start len = .ok column) :
    0 ≤ start ∧ 0 ≤ len ∧
      doSubstring junk (pack strings) (int64 (uint64 (start - 1))) (int64 len) = .ok column := by
  have value : ∀ {x y : Int}, getValueIn 0 (2 ^ 64) x = .ok y → 0 ≤ x ∧ x = y := by
    intro x y accepted
    rw [getValueIn] at accepted
    split at accepted
    case isTrue fits =>
      cases accepted
      exact ⟨fits.1, rfl⟩
    case isFalse => cases accepted
  obtain ⟨_, first, ran⟩ := bind_ok_iff.mp ran
  obtain ⟨low, rfl⟩ := value first
  obtain ⟨_, second, ran⟩ := bind_ok_iff.mp ran
  obtain ⟨low', rfl⟩ := value second
  exact ⟨low, low', ran⟩

/-- At start 0 the kernels read the byte before the first string. -/
theorem doSubstring_zero (some : 0 < len) (filled : strings ≠ []) :
    doSubstring junk (pack strings) (-1) len ≠ .ok column := by
  intro ran
  rw [doSubstring, pack_size] at ran
  obtain ⟨_, -, ran⟩ := bind_ok_iff.mp ran
  obtain ⟨_, copied, -⟩ := bind_ok_iff.mp ran
  have positive := List.length_pos_iff.mpr filled
  obtain ⟨n, count⟩ := Nat.exists_eq_succ_of_ne_zero positive.ne'
  rw [count, List.range_succ_eq_map, List.foldlM_cons] at copied
  obtain ⟨_, first, -⟩ := bind_ok_iff.mp copied
  rw [substringCopyChars, substringRange_pack positive, place_zero] at first
  simp only at first
  rw [if_neg (by omega), if_pos (by omega)] at first
  cases first

theorem sizes_of_ok {startIdx length : Int}
    (ran : doSubstring junk (pack strings) startIdx length = .ok column) :
    strings.length + 1 < 2 ^ 31 := by
  rw [doSubstring, pack_size] at ran
  obtain ⟨_, sized, -⟩ := bind_ok_iff.mp ran
  rw [sizeType] at sized
  split at sized
  case isTrue fits => omega
  case isFalse => cases sized

theorem cudfSubstring_right
    (python : ∀ strings, Ascii strings → ∀ first last, sliceStrings (pack strings) first last =
      .ok (pack (strings.map (pythonSlice first last))))
    (ascii : Ascii strings) (supported : Supported strings start len) :
    cudfSubstring sliceStrings (pack strings) start len =
      .ok (pack (strings.map (sqlSubstring start len))) := by
  obtain ⟨-, some, few, small, sum, asked⟩ := supported
  have sliced : strings.map (pythonSlice (start - 1) (len + (start - 1))) =
      strings.map (sqlSubstring start len) := by
    obtain position | ⟨rfl, rfl | rfl⟩ := asked
    · exact List.map_congr_left fun _ _ => pythonSlice_position position some
    · exact List.map_congr_left fun _ _ => pythonSlice_nothing
    · rfl
  refine bind_ok_iff.mpr ⟨_, getValueIn_ok (by omega) small, ?_⟩
  refine bind_ok_iff.mpr ⟨_, sizeType_ok (by omega) (by omega), ?_⟩
  refine bind_ok_iff.mpr ⟨_, getValueIn_ok (by omega) few, ?_⟩
  refine bind_ok_iff.mpr ⟨_, sizeType_ok (by omega) (by omega), ?_⟩
  rw [python strings ascii, sliced]

theorem siriusSubstring_right (supported : Supported strings start len) :
    siriusSubstring junk (pack strings) start len =
      .ok (pack (strings.map (sqlSubstring start len))) := by
  obtain ⟨fits, some, few, small, -, asked⟩ := supported
  have count : (strings.map (sqlSubstring start len)).length = strings.length :=
    List.length_map _
  have cuts : ∀ i < strings.length, Cuts strings (start - 1) len i
      ((strings.map (sqlSubstring start len)).getD i []) := by
    intro i inside
    rw [List.getD_eq_getElem _ _ (by rwa [count]), List.getElem_map,
      ← List.getD_eq_getElem _ [] inside]
    obtain position | ⟨rfl, rfl | rfl⟩ := asked
    · exact cuts_position position some inside
    · exact cuts_nothing inside
    · exact absurd inside (Nat.not_lt_zero i)
  refine bind_ok_iff.mpr ⟨_, getValueIn_ok (by omega) (by omega), ?_⟩
  refine bind_ok_iff.mpr ⟨_, getValueIn_ok some (by omega), ?_⟩
  rw [int64_uint64, int64_small (by omega) (by omega), int64_small (by omega) (by omega)]
  exact doSubstring_pieces fits count cuts

theorem own_of_supported (supported : Supported strings start len) (i : Nat)
    (inside : i < strings.length) :
    let range := substringRange (pack strings) (int64 (uint64 (start - 1))) (int64 len) i
    range.1 = range.2 ∨ place strings i ≤ range.1 ∧ range.2 ≤ place strings (i + 1) := by
  obtain ⟨-, some, few, small, -, asked⟩ := supported
  rw [int64_uint64, int64_small (by omega) (by omega), int64_small (by omega) (by omega)]
  obtain position | ⟨rfl, rfl | rfl⟩ := asked
  · exact .inr (own_position position inside)
  · have order := @place_le _ strings i (i + 1) (Nat.le_succ i)
    rw [substringRange_pack inside]
    simp only
    omega
  · exact absurd inside (Nat.not_lt_zero i)

/-- For constants from the ranges of both branches both are right; for all others they are not. -/
theorem substring_right_iff
    (python : ∀ strings, Ascii strings → ∀ first last, sliceStrings (pack strings) first last =
      .ok (pack (strings.map (pythonSlice first last))))
    (junk : Memory UInt8) (strings : List (List UInt8)) (ascii : Ascii strings) (start len : Int) :
    (∃ column, Right sliceStrings junk strings start len column) ↔ Supported strings start len := by
  constructor
  · rintro ⟨column, right⟩
    obtain ⟨small, few, sum⟩ := cudfSubstring_inv right.cudf
    obtain ⟨low, some, ran⟩ := siriusSubstring_inv right.sirius
    refine ⟨sizes_of_ok ran, some, few, small, sum, ?_⟩
    by_cases position : 1 ≤ start
    · exact .inl position
    · obtain rfl : start = 0 := by omega
      refine .inr ⟨rfl, ?_⟩
      by_contra asked
      push Not at asked
      rw [int64_uint64, int64_small (by omega) (by omega), int64_small (by omega) (by omega)] at ran
      exact doSubstring_zero (by omega) asked.2 ran
  · exact fun supported => ⟨_, right_of (cudfSubstring_right python ascii supported)
      (siriusSubstring_right supported) (own_of_supported supported)⟩

/-- `slice_strings` on a column. -/
def sliceColumn (column : StringsColumn) (first last : Int) : Except Exception StringsColumn :=
  .ok (pack ((List.range column.size).map fun i =>
    pythonSlice first last (slice column.chars (column.offsets.getD i 0).toNat
      (column.offsets.getD (i + 1) 0).toNat)))

theorem sliceColumn_pack (strings : List (List UInt8)) (first last : Int) :
    sliceColumn (pack strings) first last = .ok (pack (strings.map (pythonSlice first last))) := by
  have same : ((List.range strings.length).map fun i =>
      pythonSlice first last (slice (pack strings).chars ((pack strings).offsets.getD i 0).toNat
        ((pack strings).offsets.getD (i + 1) 0).toNat)) =
        strings.map (pythonSlice first last) := by
    apply List.ext_getElem
    · rw [List.length_map, List.length_range, List.length_map]
    · intro i _ inside
      rw [List.length_map] at inside
      rw [List.getElem_map, List.getElem_range, List.getElem_map, pack_slice inside,
        List.getD_eq_getElem _ _ inside]
  rw [sliceColumn, pack_size, same]

/-- The characters 2 to 4 of `hello` and of an empty string. -/
theorem hello_right : ∃ column, Right sliceColumn (fun _ => 0) [[104, 101, 108, 108, 111], []] 2 3
    column :=
  (substring_right_iff (fun strings _ => sliceColumn_pack strings) (fun _ => 0)
    [[104, 101, 108, 108, 111], []] (by simp [Ascii]) 2 3).mpr (by simp [Supported])

/-- `substring('ab', 0, 2)`: the byte before the characters is read. -/
theorem read_before : ¬ ∀
    (sliceStrings : StringsColumn → Int → Int → Except Exception StringsColumn)
    (junk : Memory UInt8) (strings : List (List UInt8)) (start len : Int),
    (∀ strings, Ascii strings → ∀ first last, sliceStrings (pack strings) first last =
      .ok (pack (strings.map (pythonSlice first last)))) → Ascii strings → 0 ≤ len →
      ∃ column, Right sliceStrings junk strings start len column := by
  intro all
  obtain ⟨column, right⟩ := all sliceColumn (fun _ => 0) [[97, 98]] 0 2
    (fun strings _ => sliceColumn_pack strings) (by simp [Ascii]) (by decide)
  obtain ⟨-, -, ran⟩ := siriusSubstring_inv right.sirius
  rw [int64_uint64, int64_small (by omega) (by omega), int64_small (by omega) (by omega)] at ran
  exact doSubstring_zero (by decide) (List.cons_ne_nil _ _) ran

end Results

end SubstringFunction
