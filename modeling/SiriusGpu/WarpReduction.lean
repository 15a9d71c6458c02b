import Mathlib.Data.Nat.Bitwise
import Mathlib.Data.List.Basic

/-!
# Reducing over the lanes of a warp

Every lane joins its word with the word of the lane an offset further down. With
offsets that halve down to one, a lane ends up with the words of all the lanes
from it on, and a warp that shifts one bit to its lane's place has packed its
bits into a word.
-/

namespace WarpReduction

variable {w : Nat}

/-- A lane beyond the last keeps its own word. -/
def shflDown (lanes : Nat) (set : Nat → BitVec w) (offset lane : Nat) : BitVec w :=
  if lane + offset < lanes then set (lane + offset) else set lane

def joinDown (lanes : Nat) (set : Nat → BitVec w) (offset : Nat) : Nat → BitVec w :=
  fun lane => set lane ||| shflDown lanes set offset lane

def halvings : Nat → List Nat
  | 0 => []
  | n + 1 => 2 ^ n :: halvings n

def reduceDown (lanes n : Nat) (set : Nat → BitVec w) : Nat → BitVec w :=
  (halvings n).foldl (joinDown lanes) set

theorem reduceDown_succ (lanes n : Nat) (set : Nat → BitVec w) :
    reduceDown lanes (n + 1) set = reduceDown lanes n (joinDown lanes set (2 ^ n)) := rfl

theorem joinDown_bit {lanes offset lane : Nat} (h : lane + offset < lanes)
    (set : Nat → BitVec w) (k : Nat) : (joinDown lanes set offset lane).getLsbD k =
      ((set lane).getLsbD k || (set (lane + offset)).getLsbD k) := by
  simp [joinDown, shflDown, h]

theorem reduceDown_bit {lanes n lane : Nat} (h : lane + 2 ^ n ≤ lanes) (set : Nat → BitVec w)
    (k : Nat) : (reduceDown lanes n set lane).getLsbD k = true ↔
      ∃ j < 2 ^ n, (set (lane + j)).getLsbD k = true := by
  induction n generalizing set with
  | zero => simp [reduceDown, halvings]
  | succ n ih =>
    have pos := Nat.two_pow_pos n
    have room : lane + 2 ^ n ≤ lanes := by omega
    rw [reduceDown_succ, ih room]
    constructor
    · rintro ⟨j, hj, bit⟩
      have near : lane + j + 2 ^ n < lanes := by omega
      rw [joinDown_bit near, Bool.or_eq_true] at bit
      rcases bit with bit | bit
      · exact ⟨j, by omega, bit⟩
      · exact ⟨j + 2 ^ n, by omega, by rwa [← Nat.add_assoc]⟩
    · rintro ⟨j, hj, bit⟩
      by_cases lower : j < 2 ^ n
      · have near : lane + j + 2 ^ n < lanes := by omega
        refine ⟨j, lower, ?_⟩
        rw [joinDown_bit near, bit, Bool.true_or]
      · have near : lane + (j - 2 ^ n) + 2 ^ n < lanes := by omega
        have same : lane + (j - 2 ^ n) + 2 ^ n = lane + j := by omega
        refine ⟨j - 2 ^ n, by omega, ?_⟩
        rw [joinDown_bit near, same, bit, Bool.or_true]

/-- Every lane shifts its bit to its own place; lane 0 gathers the places. -/
def packWarp (n : Nat) (bit : Nat → Bool) : BitVec (2 ^ n) :=
  reduceDown (2 ^ n) n (fun lane => (if bit lane then 1#(2 ^ n) else 0#(2 ^ n)) <<< lane) 0

theorem packWarp_bit (n : Nat) (bit : Nat → Bool) {k : Nat} (h : k < 2 ^ n) :
    (packWarp n bit).getLsbD k = bit k := by
  have shifted : ∀ lane, (((if bit lane then 1#(2 ^ n) else 0#(2 ^ n)) <<< lane).getLsbD k) =
      (bit lane && decide (lane = k)) := by
    intro lane
    cases hb : bit lane with
    | false => simp
    | true =>
      by_cases same : lane = k
      · subst same
        simp [h]
      · by_cases lower : k < lane
        · simp [lower, same]
        · have above : k - lane ≠ 0 := by omega
          simp [above, same]
  rw [Bool.eq_iff_iff, packWarp, reduceDown_bit (by omega)]
  constructor
  · rintro ⟨j, _, found⟩
    rw [Nat.zero_add, shifted, Bool.and_eq_true, decide_eq_true_eq] at found
    rw [← found.2]
    exact found.1
  · intro found
    refine ⟨k, h, ?_⟩
    rw [Nat.zero_add, shifted, found]
    simp

end WarpReduction
