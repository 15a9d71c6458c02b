import Mathlib

/-!
# First fit into two bump-allocated regions

Requests are served one after another, each from the first region that still has
room for it. A region only grows, so room that was too small for one request may
do for a later one.
-/

namespace FirstFit

variable {room used : Nat × Nat} {sizes : List Nat}

/-- What is used of the regions once all requests have been served. -/
def pack (room : Nat × Nat) : Nat × Nat → List Nat → Option (Nat × Nat)
  | used, [] => some used
  | (first, second), size :: rest =>
    if first + size ≤ room.1 then pack room (first + size, second) rest
    else if second + size ≤ room.2 then pack room (first, second + size) rest
    else none

/-- Nothing is lost between requests: what is used grows by what is asked for. -/
theorem pack_total {used' : Nat × Nat} (h : pack room used sizes = some used') :
    used'.1 + used'.2 = used.1 + used.2 + sizes.sum := by
  induction sizes generalizing used with
  | nil =>
    cases h
    simp
  | cons size rest ih =>
    obtain ⟨first, second⟩ := used
    unfold pack at h
    split at h
    · have := ih h
      simp only [List.sum_cons] at this ⊢
      omega
    · split at h
      · have := ih h
        simp only [List.sum_cons] at this ⊢
        omega
      · cases h

theorem pack_within {used' : Nat × Nat} (start : used.1 ≤ room.1 ∧ used.2 ≤ room.2)
    (h : pack room used sizes = some used') : used'.1 ≤ room.1 ∧ used'.2 ≤ room.2 := by
  induction sizes generalizing used with
  | nil =>
    cases h
    exact start
  | cons size rest ih =>
    obtain ⟨first, second⟩ := used
    unfold pack at h
    split at h
    · rename_i fits
      exact @ih (first + size, second) ⟨fits, start.2⟩ h
    · split at h
      · rename_i fits
        exact @ih (first, second + size) ⟨start.1, fits⟩ h
      · cases h

/-- Requests that fit into the first region together are served from it. -/
theorem pack_first (fits : used.1 + sizes.sum ≤ room.1) :
    pack room used sizes = some (used.1 + sizes.sum, used.2) := by
  induction sizes generalizing used with
  | nil => simp [pack]
  | cons size rest ih =>
    obtain ⟨first, second⟩ := used
    simp only [List.sum_cons] at fits ⊢
    rw [pack, if_pos (by omega), ih (by simp only; omega)]
    simp only [Nat.add_assoc]

/-- Without a second region the sum decides. -/
theorem pack_one (none : room.2 = 0) (start : used.1 ≤ room.1 ∧ used.2 ≤ room.2) :
    (pack room used sizes).isSome ↔ used.1 + sizes.sum ≤ room.1 := by
  constructor
  · intro packed
    obtain ⟨used', h⟩ := Option.isSome_iff_exists.mp packed
    have total := pack_total h
    have within := pack_within start h
    omega
  · intro fits
    rw [pack_first fits]
    rfl

end FirstFit
