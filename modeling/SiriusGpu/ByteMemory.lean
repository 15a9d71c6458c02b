import Mathlib

/-!
# Byte memory

Values at addresses, written and read in runs.
-/

namespace ByteMemory

variable {β : Type}

/-- What each address holds. -/
abbrev Memory (β : Type) := Nat → β

def write (m : Memory β) (start : Nat) (values : List β) : Memory β := fun a =>
  if a < start then m a else values.getD (a - start) (m a)

def read (m : Memory β) (start count : Nat) : List β :=
  (List.range count).map fun i => m (start + i)

section Lemmas

variable {m m' : Memory β} {start length at' count : Nat} {values : List β}

@[simp] theorem read_length : (read m start count).length = count := by simp [read]

theorem read_congr (same : ∀ a, start ≤ a → a < start + count → m a = m' a) :
    read m start count = read m' start count :=
  List.map_congr_left fun _ member =>
    same _ (Nat.le_add_right _ _) (Nat.add_lt_add_left (List.mem_range.mp member) _)

theorem write_outside {a : Nat} (outside : a < start ∨ start + values.length ≤ a) :
    write m start values a = m a := by
  rw [write]
  by_cases below : a < start
  · rw [if_pos below]
  · rw [if_neg below, List.getD_eq_getElem?_getD, List.getElem?_eq_none (by omega),
      Option.getD_none]

theorem read_add (m : Memory β) (start length count : Nat) :
    read m start (length + count) = read m start length ++ read m (start + length) count := by
  rw [read, List.range_add, List.map_append, List.map_map, read, read]
  simp only [Function.comp_def, Nat.add_assoc]

/-- A run read inside a longer one. -/
theorem read_part (inside : at' + count ≤ length) :
    read m (start + at') count = ((read m start length).drop at').take count := by
  apply List.ext_getElem
  · simp only [read_length, List.length_take, List.length_drop]
    omega
  · intro i _ _
    simp [read, Nat.add_assoc]

/-- A run read inside a run that was written. -/
theorem read_write (room : at' + count ≤ values.length) :
    read (write m start values) (start + at') count = (values.drop at').take count := by
  apply List.ext_getElem
  · rw [read_length, List.length_take, List.length_drop]
    omega
  · intro i small _
    rw [read_length] at small
    have inside : at' + i < values.length := by omega
    simp only [read, List.getElem_map, List.getElem_range, List.getElem_take, List.getElem_drop]
    rw [write, if_neg (by omega), List.getD_eq_getElem?_getD,
      show start + at' + i - start = at' + i by omega, List.getElem?_eq_getElem inside,
      Option.getD_some]

theorem read_write_outside (outside : start + values.length ≤ at' ∨ at' + count ≤ start) :
    read (write m start values) at' count = read m at' count :=
  read_congr fun _ _ _ => write_outside (by omega)

end Lemmas

end ByteMemory
