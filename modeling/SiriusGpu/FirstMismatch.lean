import Mathlib.Data.List.Basic

/-!
# The first position where two sequences differ

Two sequences are compared position by position over the shorter length. The
first pair that differs decides their lexicographic order; without one the shorter
sequence is a prefix of the other, and the lengths decide.
-/

namespace FirstMismatch

universe u
variable {α : Type u} [DecidableEq α] {s t : List α} {a b : α}

def firstMismatch : List α → List α → Option (α × α)
  | [], _ => none
  | _ :: _, [] => none
  | a :: s, b :: t => if a = b then firstMismatch s t else some (a, b)

@[simp] theorem nil_left (t : List α) : firstMismatch [] t = none := rfl

@[simp] theorem nil_right (s : List α) : firstMismatch s [] = none := by
  cases s <;> rfl

theorem cons_cons (a b : α) (s t : List α) :
    firstMismatch (a :: s) (b :: t) = if a = b then firstMismatch s t else some (a, b) := rfl

theorem firstMismatch_swap (s t : List α) :
    firstMismatch t s = (firstMismatch s t).map Prod.swap := by
  induction s generalizing t with
  | nil => simp
  | cons a s ih =>
      cases t with
      | nil => simp
      | cons b t =>
          by_cases same : a = b
          · simp [cons_cons, same, ih]
          · simp [cons_cons, same, Ne.symm same]

theorem ne_of_some (found : firstMismatch s t = some (a, b)) : a ≠ b := by
  induction s generalizing t with
  | nil => simp at found
  | cons c s ih =>
      cases t with
      | nil => simp at found
      | cons d t =>
          by_cases same : c = d
          · exact ih (by simpa [cons_cons, same] using found)
          · simp only [cons_cons, same, if_false, Option.some.injEq, Prod.mk.injEq] at found
            rwa [← found.1, ← found.2]

theorem none_iff_startsWith (s t : List α) : firstMismatch s t = none ↔ s <+: t ∨ t <+: s := by
  induction s generalizing t with
  | nil => simp
  | cons a s ih =>
      cases t with
      | nil => simp
      | cons b t =>
          by_cases same : a = b
          · simp [cons_cons, same, ih]
          · simp [cons_cons, same, Ne.symm same]

theorem eq_iff_of_none (found : firstMismatch s t = none) : s = t ↔ s.length = t.length := by
  constructor
  · intro same
    rw [same]
  · intro same
    rcases (none_iff_startsWith s t).mp found with front | front
    · exact front.eq_of_length same
    · exact (front.eq_of_length same.symm).symm

theorem prefix_iff_of_none (found : firstMismatch s t = none) :
    s <+: t ↔ s.length ≤ t.length := by
  constructor
  · exact List.IsPrefix.length_le
  · intro le
    rcases (none_iff_startsWith s t).mp found with front | front
    · exact front
    · have same := front.eq_of_length (Nat.le_antisymm front.length_le le)
      subst same
      exact List.prefix_refl _

/-- A pair that differs is no end of either sequence. -/
theorem not_prefix_of_some (found : firstMismatch s t = some (a, b)) : ¬ s <+: t := by
  intro front
  have := (none_iff_startsWith s t).mpr (.inl front)
  simp [found] at this

section Order

variable [LT α] [irrefl : Std.Irrefl ((· < ·) : α → α → Prop)]

theorem lt_iff_of_some (found : firstMismatch s t = some (a, b)) : s < t ↔ a < b := by
  induction s generalizing t with
  | nil => simp at found
  | cons c s ih =>
      cases t with
      | nil => simp at found
      | cons d t =>
          rw [List.cons_lt_cons_iff]
          by_cases same : c = d
          · have later := ih (t := t) (by simpa [cons_cons, same] using found)
            simp [same, later, irrefl.irrefl d]
          · simp only [cons_cons, same, if_false, Option.some.injEq, Prod.mk.injEq] at found
            obtain ⟨rfl, rfl⟩ := found
            simp [same]

theorem lt_iff_of_none (found : firstMismatch s t = none) : s < t ↔ s.length < t.length := by
  induction s generalizing t with
  | nil =>
      cases t with
      | nil => simp
      | cons b t => simp
  | cons a s ih =>
      cases t with
      | nil => simp
      | cons b t =>
          by_cases same : a = b
          · have later := ih (t := t) (by simpa [cons_cons, same] using found)
            simp [same, later]
          · simp [cons_cons, same] at found

end Order

end FirstMismatch
