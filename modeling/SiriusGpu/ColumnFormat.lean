import Mathlib.Data.List.Flatten
import Mathlib.Data.List.GetD

/-!
# Columns of byte strings

A column keeps its values one behind the other in a data buffer, the places
where they start in an offset buffer or as multiples of a width, and which of
them are valid in a mask. Cutting the data at the offsets gives the values back.
-/

namespace ColumnFormat

variable {α : Type}

/-- Where the pieces of a concatenation start, and last where it ends. -/
def offsets (start : Nat) : List (List α) → List Nat
  | [] => [start]
  | piece :: rest => start :: offsets (start + piece.length) rest

def slice (data : List α) (start stop : Nat) : List α := (data.drop start).take (stop - start)

@[simp] theorem offsets_length (start : Nat) (pieces : List (List α)) :
    (offsets start pieces).length = pieces.length + 1 := by
  induction pieces generalizing start with
  | nil => rfl
  | cons piece rest ih => simp [offsets, ih]

theorem offsets_get (start : Nat) (pieces : List (List α)) {i : Nat} (h : i ≤ pieces.length) :
    (offsets start pieces).getD i 0 = start + (pieces.take i).flatten.length := by
  induction pieces generalizing start i with
  | nil =>
    obtain rfl : i = 0 := by simpa using h
    simp [offsets]
  | cons piece rest ih =>
    cases i with
    | zero => simp [offsets]
    | succ i =>
      have hi : i ≤ rest.length := by simpa using h
      have := ih (start + piece.length) hi
      simp only [offsets, List.getD_cons_succ, this, List.take_succ_cons, List.flatten_cons,
        List.length_append]
      omega

theorem offsets_last (start : Nat) (pieces : List (List α)) :
    (offsets start pieces).getD pieces.length 0 = start + pieces.flatten.length := by
  rw [offsets_get start pieces (Nat.le_refl _), List.take_length]

theorem offsets_append (start : Nat) (pieces : List (List α)) (piece : List α) :
    offsets start (pieces ++ [piece]) =
      offsets start pieces ++ [start + pieces.flatten.length + piece.length] := by
  induction pieces generalizing start with
  | nil => simp [offsets]
  | cons first rest ih =>
    rw [List.cons_append, offsets, ih, offsets, List.cons_append, List.flatten_cons,
      List.length_append, ← Nat.add_assoc start]

/-- Cut between the ends of two consecutive prefixes, a concatenation gives the piece. -/
theorem slice_flatten (pieces : List (List α)) {i : Nat} (h : i < pieces.length) :
    slice pieces.flatten (pieces.take i).flatten.length
      (pieces.take (i + 1)).flatten.length = pieces[i] := by
  have split : pieces.flatten =
      (pieces.take i).flatten ++ (pieces[i] ++ (pieces.drop (i + 1)).flatten) := by
    rw [← List.flatten_cons, ← List.flatten_append, ← List.drop_eq_getElem_cons h,
      List.take_append_drop]
  have size : (pieces.take (i + 1)).flatten.length =
      (pieces.take i).flatten.length + pieces[i].length := by
    rw [List.take_succ_eq_append_getElem h, List.flatten_append, List.length_append]
    simp
  rw [slice, split, size, Nat.add_sub_cancel_left, List.drop_left', List.take_left']
  · rfl
  · rfl

/-- Pieces of one width start at its multiples. -/
theorem take_flatten_length {width : Nat} (pieces : List (List α))
    (widths : ∀ piece ∈ pieces, piece.length = width) {i : Nat} (h : i ≤ pieces.length) :
    (pieces.take i).flatten.length = i * width := by
  rw [List.length_flatten, List.map_congr_left (g := fun _ => width)]
  · rw [List.map_const', List.length_take, Nat.min_eq_left h, List.sum_replicate_nat]
  · intro piece hpiece
    exact widths piece (List.mem_of_mem_take hpiece)

theorem slice_multiple {width : Nat} (pieces : List (List α))
    (widths : ∀ piece ∈ pieces, piece.length = width) {i : Nat} (h : i < pieces.length) :
    slice pieces.flatten (i * width) ((i + 1) * width) = pieces[i] := by
  rw [← take_flatten_length pieces widths (Nat.le_of_lt h), ← take_flatten_length pieces widths h,
    slice_flatten pieces h]

/-- Cut at the multiples of a width, data comes apart into the pieces it consists of. -/
theorem flatten_slices (data : List α) {width : Nat} (count : Nat)
    (room : count * width ≤ data.length) :
    ((List.range count).map fun i => slice data (i * width) ((i + 1) * width)).flatten =
      data.take (count * width) := by
  induction count with
  | zero => simp
  | succ count ih =>
    have less : count * width ≤ data.length := by
      have := Nat.add_one_mul count width
      omega
    have width' : (count + 1) * width - count * width = width := by
      rw [Nat.add_one_mul, Nat.add_sub_cancel_left]
    rw [List.range_succ, List.map_append, List.flatten_append, ih less]
    simp only [List.map_cons, List.map_nil, List.flatten_cons, List.flatten_nil, List.append_nil,
      slice, width']
    rw [Nat.add_one_mul, List.take_add]

/-- The value at a place of a column, if it is valid. -/
def cell (data : List α) (start : Nat → Nat) (mask : List Bool) (i : Nat) : Option (List α) :=
  if mask.getD i false then some (slice data (start i) (start (i + 1))) else none

theorem cell_flatten (pieces : List (List α)) (mask : List Bool) {start : Nat → Nat}
    (starts : ∀ i ≤ pieces.length, start i = (pieces.take i).flatten.length) {i : Nat}
    (h : i < pieces.length) :
    cell pieces.flatten start mask i = if mask.getD i false then some pieces[i] else none := by
  rw [cell, starts i (Nat.le_of_lt h), starts (i + 1) h, slice_flatten pieces h]

section Slices

variable {data : List α} {a b c d i : Nat}

theorem slice_slice (low : a ≤ c) (high : d ≤ b) :
    slice data c d = ((slice data a b).drop (c - a)).take (d - c) := by
  rw [slice, slice, List.drop_take, List.drop_drop, List.take_take]
  congr 1
  · omega
  · congr 1
    omega

theorem infix_slice (low : a ≤ c) (high : d ≤ b) : slice data c d <:+: slice data a b := by
  rw [slice_slice low high]
  exact (List.take_prefix _ _).isInfix.trans (List.drop_suffix _ _).isInfix

theorem slice_suffix (low : a ≤ c) : slice data c b <:+ slice data a b := by
  have part : slice data c b = (slice data a b).drop (c - a) := by
    rw [slice, slice, List.drop_take, List.drop_drop]
    congr 1
    · omega
    · congr 1
      omega
  rw [part]
  exact List.drop_suffix _ _

theorem slice_of_suffix {part : List α} (order : a ≤ i + 1) (inside : i < data.length)
    (suffix : part <:+ slice data a (i + 1)) :
    part.length ≤ i + 1 - a ∧ slice data (i + 1 - part.length) (i + 1) = part := by
  have length : (slice data a (i + 1)).length = i + 1 - a := by
    rw [slice, List.length_take, List.length_drop]
    omega
  have room : part.length ≤ i + 1 - a := length ▸ suffix.length_le
  refine ⟨room, ?_⟩
  have cut := List.suffix_iff_eq_drop.mp suffix
  rw [length, slice, List.drop_take, List.drop_drop] at cut
  refine Eq.trans ?_ cut.symm
  rw [slice]
  congr 1
  · omega
  · congr 1
    omega

theorem slice_self : slice data a a = [] := by rw [slice, Nat.sub_self, List.take_zero]

theorem slice_append (first : a ≤ c) (second : c ≤ b) :
    slice data a c ++ slice data c b = slice data a b := by
  have whole : b - a = (c - a) + (b - c) := by omega
  rw [slice, slice, slice, whole, List.take_add, List.drop_drop, Nat.add_sub_cancel' first]

theorem slice_length (inside : b ≤ data.length) : (slice data a b).length = b - a := by
  rw [slice, List.length_take, List.length_drop]
  omega

theorem slice_snoc (order : a ≤ i) (inside : i < data.length) :
    slice data a (i + 1) = slice data a i ++ [data[i]] := by
  rw [slice, slice, Nat.succ_sub order, List.take_succ_eq_append_getElem
    (by rw [List.length_drop]; omega), List.getElem_drop]
  congr 2
  simp only [Nat.add_sub_cancel' order]

end Slices

section Places

/-- Where a string starts among all characters. -/
def place (strings : List (List α)) (i : Nat) : Nat := (strings.take i).flatten.length

variable {strings : List (List α)} {i j : Nat}

@[simp] theorem place_zero : place strings 0 = 0 := by simp [place]

@[simp] theorem place_all : place strings strings.length = strings.flatten.length := by
  rw [place, List.take_length]

theorem getD_offsets (inside : i ≤ strings.length) :
    (offsets 0 strings).getD i 0 = place strings i := by
  rw [offsets_get _ _ inside, Nat.zero_add, place]

theorem place_le (order : i ≤ j) : place strings i ≤ place strings j := by
  rw [place, place]
  exact ((List.take_prefix_take_left order).sublist.flatten).length_le

theorem place_le_all : place strings i ≤ strings.flatten.length :=
  ((List.take_sublist i strings).flatten).length_le

theorem place_succ (inside : i < strings.length) :
    place strings (i + 1) = place strings i + (strings.getD i []).length := by
  rw [place, place, List.take_succ_eq_append_getElem inside, List.flatten_append,
    List.length_append, List.getD_eq_getElem _ _ inside]
  simp

theorem slice_string (inside : i < strings.length) :
    slice strings.flatten (place strings i) (place strings (i + 1)) = strings.getD i [] := by
  rw [place, place, slice_flatten strings inside, List.getD_eq_getElem _ _ inside]

end Places

end ColumnFormat
