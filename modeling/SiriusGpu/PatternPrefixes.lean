import Mathlib

/-!
# Prefixes of a pattern at the end of a text

How much of a pattern the end of a text is, as a state of an automaton that reads the text.
-/

namespace PatternPrefixes

variable {α : Type} [DecidableEq α]

/-- The length of the longest prefix of a pattern that is a suffix of a text. -/
def longest (pattern text : List α) : Nat :=
  Nat.findGreatest (fun k => pattern.take k <:+ text) pattern.length

/-- The state after a value, from the state `k`. -/
def next (pattern : List α) (k : Nat) (b : α) : Nat := longest pattern (pattern.take k ++ [b])

/-- The state of the pattern's beginning without its first value. -/
def restart (pattern : List α) (k : Nat) : Nat := longest pattern ((pattern.take k).drop 1)

section Longest

variable {pattern text other : List α} {k : Nat} {b : α}

theorem longest_le : longest pattern text ≤ pattern.length := Nat.findGreatest_le _

theorem take_longest : pattern.take (longest pattern text) <:+ text :=
  Nat.findGreatest_spec (P := fun k => pattern.take k <:+ text) (Nat.zero_le _)
    (by rw [List.take_zero]; exact List.nil_suffix)

theorem le_longest (small : k ≤ pattern.length) (ends : pattern.take k <:+ text) :
    k ≤ longest pattern text :=
  Nat.le_findGreatest small ends

theorem longest_congr
    (same : ∀ k ≤ pattern.length, pattern.take k <:+ text ↔ pattern.take k <:+ other) :
    longest pattern text = longest pattern other :=
  le_antisymm
    (le_longest longest_le ((same _ longest_le).mp take_longest))
    (le_longest longest_le ((same _ longest_le).mpr take_longest))

theorem longest_nil : longest pattern ([] : List α) = 0 := by
  have ends := @take_longest α _ pattern []
  have length := ends.length_le
  rw [List.length_take, List.length_nil] at length
  have small := @longest_le α _ pattern []
  omega

/-- The whole pattern is at the end exactly in the last state. -/
theorem longest_eq_length : longest pattern text = pattern.length ↔ pattern <:+ text := by
  constructor
  · intro last
    have ends := @take_longest α _ pattern text
    rwa [last, List.take_length] at ends
  · intro ends
    refine le_antisymm longest_le (le_longest le_rfl ?_)
    rwa [List.take_length]

omit [DecidableEq α] in
theorem take_succ_suffix (inside : k < pattern.length) :
    pattern.take (k + 1) <:+ text ++ [b] ↔ pattern.take k <:+ text ∧ pattern[k] = b := by
  rw [List.take_succ_eq_append_getElem inside]
  constructor
  · rintro ⟨before, whole⟩
    rw [← List.append_assoc] at whole
    obtain ⟨front, last⟩ := List.append_inj' whole rfl
    exact ⟨⟨before, front⟩, List.singleton_inj.mp last⟩
  · rintro ⟨⟨before, front⟩, last⟩
    exact ⟨before, by rw [← List.append_assoc, front, last]⟩

/-- What the next state is depends on the state alone. -/
theorem longest_snoc (text : List α) (b : α) :
    longest pattern (text ++ [b]) = next pattern (longest pattern text) b := by
  refine longest_congr fun k small => ?_
  cases k with
  | zero => simp
  | succ k =>
    rw [take_succ_suffix small, take_succ_suffix small]
    refine and_congr_left fun _ => ⟨fun ends => ?_, fun ends => ends.trans take_longest⟩
    have le := le_longest (Nat.le_of_succ_le small) ends
    refine List.suffix_of_suffix_length_le ends take_longest ?_
    rw [List.length_take, List.length_take]
    omega

end Longest

section Steps

variable {pattern : List α} {k : Nat} {b : α}

theorem next_match (inside : k < pattern.length) : next pattern k pattern[k] = k + 1 := by
  refine le_antisymm ?_ (le_longest inside ?_)
  · have length := (@take_longest α _ pattern (pattern.take k ++ [pattern[k]])).length_le
    have small := @longest_le α _ pattern (pattern.take k ++ [pattern[k]])
    rw [List.length_append, List.length_take, List.length_take, List.length_singleton] at length
    rw [next]
    omega
  · rw [List.take_succ_eq_append_getElem inside]

/-- After a value that does not continue the pattern the automaton goes on as from the restart
state. -/
theorem next_mismatch (positive : 0 < k) (inside : k < pattern.length) (differs : pattern[k] ≠ b) :
    next pattern k b = next pattern (restart pattern k) b := by
  rw [restart, ← longest_snoc]
  refine longest_congr fun i small => ?_
  cases i with
  | zero => simp
  | succ i =>
    rw [take_succ_suffix small, take_succ_suffix small]
    refine and_congr_left fun last =>
      ⟨fun ends => ?_, fun ends => ends.trans (List.drop_suffix _ _)⟩
    have length := ends.length_le
    rw [List.length_take, List.length_take] at length
    have other : i ≠ k := by
      rintro rfl
      exact differs last
    refine List.suffix_of_suffix_length_le ends (List.drop_suffix 1 _) ?_
    rw [List.length_drop, List.length_take, List.length_take]
    omega

theorem restart_one : restart pattern 1 = 0 := by
  have empty : (pattern.take 1).drop 1 = [] := by
    apply List.drop_eq_nil_of_le
    rw [List.length_take]
    omega
  rw [restart, empty, longest_nil]

theorem restart_succ (positive : 0 < k) (inside : k < pattern.length) :
    restart pattern (k + 1) = next pattern (restart pattern k) pattern[k] := by
  rw [restart, restart, ← longest_snoc, List.take_succ_eq_append_getElem inside,
    List.drop_append_of_le_length]
  rw [List.length_take]
  omega

theorem restart_lt (positive : 0 < k) (inside : k ≤ pattern.length) : restart pattern k < k := by
  have length := (@take_longest α _ pattern ((pattern.take k).drop 1)).length_le
  have small := @longest_le α _ pattern ((pattern.take k).drop 1)
  rw [List.length_take, List.length_drop, List.length_take] at length
  rw [restart]
  omega

theorem next_zero (some : 0 < pattern.length) :
    next pattern 0 b = if pattern[0] = b then 1 else 0 := by
  by_cases first : pattern[0] = b
  · rw [if_pos first, ← first, next_match some]
  · rw [if_neg first]
    by_contra moved
    have ends := @take_longest α _ pattern (pattern.take 0 ++ [b])
    have length := ends.length_le
    have small := @longest_le α _ pattern (pattern.take 0 ++ [b])
    rw [List.length_take, List.length_append, List.length_take, List.length_singleton] at length
    have one : longest pattern (pattern.take 0 ++ [b]) = 0 + 1 := by
      rw [next] at moved
      omega
    rw [one, take_succ_suffix some] at ends
    exact first ends.2

end Steps

end PatternPrefixes
