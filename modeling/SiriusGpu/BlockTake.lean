import Mathlib

/-!
# Cutting blocks and cutting their concatenation

A list comes in blocks, each of which is cut to its first members. The result is a window of
the concatenation in few cases only: nothing is cut off, or all members are in one block.
-/

namespace BlockTake

variable {α : Type}

/-- The members that are left when each block is cut. -/
def cut (limit : Nat) (blocks : List (List α)) : List α := blocks.flatMap (List.take limit)

/-- All members are in one block. -/
def Single (blocks : List (List α)) : Prop := (blocks.filter (!·.isEmpty)).length ≤ 1

theorem cut_cons (limit : Nat) (block : List α) (rest : List (List α)) :
    cut limit (block :: rest) = block.take limit ++ cut limit rest := rfl

theorem cut_zero (blocks : List (List α)) : cut 0 blocks = [] := by simp [cut]

/-- Blocks that are short enough are not cut. -/
theorem cut_whole {limit : Nat} {blocks : List (List α)}
    (short : blocks.flatten.length ≤ limit) : cut limit blocks = blocks.flatten := by
  induction blocks with
  | nil => rfl
  | cons block rest ih =>
      rw [List.flatten_cons, List.length_append] at short
      rw [cut_cons, List.take_of_length_le (by omega), ih (by omega), List.flatten_cons]

theorem cut_length_ge (limit : Nat) (blocks : List (List α)) :
    min limit blocks.flatten.length ≤ (cut limit blocks).length := by
  induction blocks with
  | nil => simp
  | cons block rest ih =>
      rw [cut_cons, List.flatten_cons, List.length_append, List.length_append, List.length_take]
      omega

/-- With members in two blocks more than the limit are left, if there are more. -/
theorem cut_length_gt {limit : Nat} (some : limit ≠ 0) {blocks : List (List α)}
    (several : ¬ Single blocks) :
    min (limit + 1) blocks.flatten.length ≤ (cut limit blocks).length := by
  induction blocks with
  | nil => simp
  | cons block rest ih =>
      have least := cut_length_ge limit rest
      rw [cut_cons, List.flatten_cons, List.length_append, List.length_append, List.length_take]
      cases block with
      | nil =>
          have several' : ¬ Single rest := by simpa [Single] using several
          have := ih several'
          simp only [List.length_nil]
          omega
      | cons a block =>
          have nonempty : rest.flatten.length ≠ 0 := by
            intro none
            apply several
            have empty : ∀ b ∈ rest, b = [] :=
              List.flatten_eq_nil_iff.mp (List.length_eq_zero_iff.mp none)
            have filtered : rest.filter (!·.isEmpty) = [] := by
              rw [List.filter_eq_nil_iff]
              intro b member
              simp [empty b member]
            simp [Single, filtered]
          simp only [List.length_cons]
          omega

theorem single_cut {blocks : List (List α)} (single : Single blocks) (limit : Nat) :
    cut limit blocks = blocks.flatten.take limit := by
  induction blocks with
  | nil => simp [cut]
  | cons block rest ih =>
      cases block with
      | nil =>
          have single' : Single rest := by simpa [Single] using single
          simpa [cut_cons] using ih single'
      | cons a block =>
          have filtered : rest.filter (!·.isEmpty) = [] := by
            have : (rest.filter (!·.isEmpty)).length = 0 := by
              simp only [Single, List.filter_cons, List.isEmpty_cons, Bool.not_false, if_true,
                List.length_cons] at single
              omega
            exact List.length_eq_zero_iff.mp this
          have empty : ∀ b ∈ rest, b = [] := by
            intro b member
            simpa using List.filter_eq_nil_iff.mp filtered b member
          have none : rest.flatten = [] := List.flatten_eq_nil_iff.mpr empty
          have none' : cut limit rest = [] := by
            rw [cut, List.flatMap_eq_nil_iff]
            intro b member
            rw [empty b member, List.take_nil]
          rw [cut_cons, none', List.append_nil, List.flatten_cons, none, List.append_nil]

/-- When the cut blocks are a window of the concatenation. -/
def Windowed (limit offset : Nat) (blocks : List (List α)) : Prop :=
  limit = 0 ∨ blocks.flatten = [] ∨ offset = 0 ∧ blocks.flatten.length ≤ limit ∨
    Single blocks ∧ (offset = 0 ∨ limit + offset ≤ blocks.flatten.length ∧
      ∀ i < limit, blocks.flatten[i]? = blocks.flatten[i + offset]?)

/-- The first members are a later window if they repeat there. -/
theorem take_eq_window {limit offset : Nat} {members : List α} (some : limit ≠ 0)
    (nonempty : members ≠ []) (later : offset ≠ 0) :
    members.take limit = (members.drop offset).take limit ↔
      limit + offset ≤ members.length ∧ ∀ i < limit, members[i]? = members[i + offset]? := by
  have positive := List.length_pos_iff.mpr nonempty
  constructor
  · intro same
    have lengths := congrArg List.length same
    rw [List.length_take, List.length_take, List.length_drop] at lengths
    refine ⟨by omega, ?_⟩
    intro i inside
    have entry := congrArg (·[i]?) same
    simpa [List.getElem?_take, inside, List.getElem?_drop, Nat.add_comm] using entry
  · rintro ⟨-, repeats⟩
    apply List.ext_getElem?
    intro i
    by_cases inside : i < limit
    · simpa [List.getElem?_take, inside, List.getElem?_drop, Nat.add_comm] using repeats i inside
    · simp [inside]

theorem cut_eq_window_iff (limit offset : Nat) (blocks : List (List α)) :
    cut limit blocks = (blocks.flatten.drop offset).take limit ↔
      Windowed limit offset blocks := by
  by_cases zero : limit = 0
  · subst zero
    simp [cut_zero, Windowed]
  · by_cases nothing : blocks.flatten = []
    · have empty : cut limit blocks = [] := by
        have whole : cut limit blocks = blocks.flatten := cut_whole (by simp [nothing])
        rw [whole, nothing]
      simp [Windowed, nothing, empty]
    · have positive := List.length_pos_iff.mpr nothing
      by_cases single : Single blocks
      · rw [single_cut single]
        by_cases first : offset = 0
        · subst first
          simp [Windowed, single]
        · rw [take_eq_window zero nothing first]
          simp [Windowed, zero, nothing, first, single]
      · constructor
        · intro same
          have more := cut_length_gt zero single
          have lengths := congrArg List.length same
          rw [List.length_take, List.length_drop] at lengths
          exact Or.inr (Or.inr (Or.inl ⟨by omega, by omega⟩))
        · rintro (zero' | nothing' | ⟨first, short⟩ | ⟨single', -⟩)
          · exact absurd zero' zero
          · exact absurd nothing' nothing
          · rw [cut_whole short, first, List.drop_zero, List.take_of_length_le short]
          · exact absurd single' single

end BlockTake
