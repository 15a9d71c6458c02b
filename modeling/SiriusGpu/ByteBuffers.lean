import Mathlib.Data.List.GetD

/-!
# Buffers that are filled piece by piece

Copying into a buffer at a position that advances by the number of elements copied,
with a failure when the buffer is too short, and the bits of a list of bytes.
-/

namespace ByteBuffers

section Copy

variable {α : Type} {buffer done bytes : List α} {pos : Nat}

/-- `none` is a write outside the buffer. -/
def memcpy (buffer : List α) (pos : Nat) (bytes : List α) : Option (List α) :=
  if pos + bytes.length ≤ buffer.length then
    some (buffer.take pos ++ bytes ++ buffer.drop (pos + bytes.length))
  else none

/-- What has been written up to the position. -/
structure Written (buffer : List α) (pos : Nat) (done : List α) : Prop where
  within : pos ≤ buffer.length
  taken : buffer.take pos = done

theorem Written.length (written : Written buffer pos done) : done.length = pos := by
  rw [← written.taken, List.length_take, Nat.min_eq_left written.within]

theorem written_start (buffer : List α) : Written buffer 0 [] :=
  ⟨Nat.zero_le _, List.take_zero⟩

theorem Written.memcpy (written : Written buffer pos done)
    (room : pos + bytes.length ≤ buffer.length) :
    ∃ after, memcpy buffer pos bytes = some after ∧ after.length = buffer.length ∧
      Written after (pos + bytes.length) (done ++ bytes) := by
  have size : (buffer.take pos ++ bytes).length = pos + bytes.length := by
    rw [List.length_append, List.length_take, Nat.min_eq_left written.within]
  have length : (buffer.take pos ++ bytes ++ buffer.drop (pos + bytes.length)).length =
      buffer.length := by
    rw [List.length_append, size, List.length_drop]
    omega
  refine ⟨_, if_pos room, length, ?_, ?_⟩
  · rw [length]
    exact room
  · rw [List.take_left' size, written.taken]

/-- What has been written can be read back. -/
theorem Written.getD (written : Written buffer pos done) {i : Nat} (before : i < pos) (a : α) :
    buffer.getD i a = done.getD i a := by
  rw [← written.taken, List.getD_eq_getElem?_getD, List.getD_eq_getElem?_getD,
    List.getElem?_take, if_pos before]

/-- A buffer written to its end holds what has been written. -/
theorem Written.full (written : Written buffer pos done) (last : pos = buffer.length) :
    buffer = done := by
  rw [← written.taken, last, List.take_length]

/-- One element at the position. -/
theorem Written.set (written : Written buffer pos done) (room : pos < buffer.length) (a : α) :
    (buffer.set pos a).length = buffer.length ∧
      Written (buffer.set pos a) (pos + 1) (done ++ [a]) := by
  refine ⟨List.length_set, ?_, ?_⟩
  · rw [List.length_set]
    exact room
  · rw [List.take_succ_eq_append_getElem (by rwa [List.length_set]), List.getElem_set_self,
      List.take_set_of_le (Nat.le_refl pos), written.taken]

end Copy

/-! ## Bits -/

/-- Bit `i` of a mask that is stored from its lowest byte on. -/
def bit (bytes : List UInt8) (i : Nat) : Bool := (bytes.getD (i / 8) 0).toNat.testBit (i % 8)

theorem bit_append_left {a b : List UInt8} {i : Nat} (inside : i < 8 * a.length) :
    bit (a ++ b) i = bit a i := by
  rw [bit, bit, List.getD_append _ _ _ _ (by omega)]

theorem bit_append_right {a b : List UInt8} {i : Nat} (outside : 8 * a.length ≤ i) :
    bit (a ++ b) i = bit b (i - 8 * a.length) := by
  have byte : i / 8 - a.length = (i - 8 * a.length) / 8 := by omega
  have place : i % 8 = (i - 8 * a.length) % 8 := by omega
  rw [bit, bit, List.getD_append_right _ _ _ _ (by omega), byte, place]

theorem bit_take {bytes : List UInt8} {n i : Nat} (inside : i < 8 * n) :
    bit (bytes.take n) i = bit bytes i := by
  have byte : i / 8 < n := by omega
  rw [bit, bit, List.getD_eq_getElem?_getD, List.getD_eq_getElem?_getD, List.getElem?_take,
    if_pos byte]

theorem bit_replicate {n i : Nat} (inside : i < 8 * n) : bit (List.replicate n 0xFF) i = true := by
  have byte : i / 8 < n := by omega
  have place : i % 8 < 8 := Nat.mod_lt _ (by decide)
  rw [bit, List.getD_eq_getElem?_getD, List.getElem?_replicate, if_pos byte, Option.getD_some]
  revert place
  generalize i % 8 = k
  revert k
  decide

/-- The bytes of a word, the lowest first. -/
def wordBytes (word : BitVec 64) : List UInt8 :=
  (List.range 8).map fun j => UInt8.ofBitVec (word.extractLsb' (8 * j) 8)

@[simp] theorem wordBytes_length (word : BitVec 64) : (wordBytes word).length = 8 := by
  simp [wordBytes]

theorem bit_wordBytes (word : BitVec 64) {i : Nat} (inside : i < 64) :
    bit (wordBytes word) i = word.getLsbD i := by
  have byte : i / 8 < 8 := by omega
  have place : i % 8 < 8 := Nat.mod_lt _ (by decide)
  have index : 8 * (i / 8) + i % 8 = i := Nat.div_add_mod i 8
  rw [bit, wordBytes, List.getD_eq_getElem?_getD, List.getElem?_map, List.getElem?_range byte,
    Option.map_some, Option.getD_some, UInt8.toNat_ofBitVec, BitVec.testBit_toNat,
    BitVec.getLsbD_extractLsb', index]
  simp [place]

theorem words_length (words : List (BitVec 64)) :
    (words.flatMap wordBytes).length = 8 * words.length := by
  induction words with
  | nil => rfl
  | cons word words ih =>
      rw [List.flatMap_cons, List.length_append, wordBytes_length, ih, List.length_cons]
      omega

/-- Bit `i` of some words is bit `i % 64` of word `i / 64`. -/
theorem bit_words (words : List (BitVec 64)) {i : Nat} (inside : i < 64 * words.length) :
    bit (words.flatMap wordBytes) i = (words.getD (i / 64) 0).getLsbD (i % 64) := by
  induction words generalizing i with
  | nil => exact absurd inside (Nat.not_lt_zero i)
  | cons word words ih =>
      rw [List.flatMap_cons]
      by_cases first : i < 64
      · rw [bit_append_left (by rw [wordBytes_length]; omega), bit_wordBytes word first,
          Nat.div_eq_of_lt first, Nat.mod_eq_of_lt first, List.getD_cons_zero]
      · rw [List.length_cons] at inside
        have word' : i / 64 = (i - 64) / 64 + 1 := by omega
        have place : i % 64 = (i - 64) % 64 := by omega
        rw [bit_append_right (by rw [wordBytes_length]; omega), wordBytes_length, ih (by omega),
          word', place, List.getD_cons_succ]

end ByteBuffers
