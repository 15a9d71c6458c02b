import SiriusGpu.FirstMismatch

/-!
# String comparison in table filters

The scan kernel's `device_comparison_string` and the kernel of the string filter
expression compare a column string with a constant. Both walk the shorter length
and let the first differing `char` decide; `char` is signed on the hosts the
build is made for, so the signedness is a parameter.

This is the comparison of one string. Neither NULLs nor the compaction of the
selected rows is modelled here.
-/

namespace StringComparison

open FirstMismatch

/-- The modes of a table filter. -/
inductive CompareType where
  | equal
  | notEqual
  | greaterThan
  | greaterThanOrEqualTo
  | lessThan
  | lessThanOrEqualTo
  | isNull
  | isNotNull
  deriving DecidableEq

/-- A character as the number it is compared by. -/
def charValue (signed : Bool) (char : UInt8) : Int :=
  if signed = true ∧ 128 ≤ char.toNat then char.toNat - 256 else char.toNat

/-- The branch of the four ordering modes. -/
def ordered (signed isGreaterCheck isInclusive : Bool) (chars compareChars : List UInt8) : Bool :=
  let numCompareChars := min compareChars.length chars.length
  match firstMismatch chars compareChars with
  | some (currStrChar, compareChar) =>
      if isGreaterCheck then charValue signed compareChar < charValue signed currStrChar
      else charValue signed currStrChar < charValue signed compareChar
  | none =>
      isInclusive && chars.length == numCompareChars ||
        isGreaterCheck && numCompareChars < chars.length ||
        !isGreaterCheck && chars.length < numCompareChars

/-- `none` where the kernel's assertion fails. -/
def deviceComparisonString (signed : Bool) (chars compareChars : List UInt8) :
    CompareType → Option Bool
  | .equal =>
      some (if compareChars.length ≠ chars.length then false
        else (firstMismatch chars compareChars).isNone)
  | .notEqual =>
      some (if compareChars.length ≠ chars.length then true
        else (firstMismatch chars compareChars).isSome)
  | .greaterThan => some (ordered signed true false chars compareChars)
  | .greaterThanOrEqualTo => some (ordered signed true true chars compareChars)
  | .lessThan => some (ordered signed false false chars compareChars)
  | .lessThanOrEqualTo => some (ordered signed false true chars compareChars)
  | .isNull => none
  | .isNotNull => none

/-- One row of the filter expression's kernel, with the result the row had before. -/
def stringComparisonExpression (signed result : Bool) (chars compareChars : List UInt8)
    (opMode : Int) : Option Bool :=
  if !result then some false
  else if opMode = 0 ∨ opMode = 1 then
    if opMode = 0 ∧ compareChars.length ≠ chars.length then some false
    else if opMode = 1 ∧ compareChars.length ≠ chars.length then some true
    else if opMode = 0 then some (firstMismatch chars compareChars).isNone
    else some ((chars.zip compareChars).all fun pair => pair.1 != pair.2)
  else if opMode = 2 then some (ordered signed true false chars compareChars)
  else if opMode = 3 then some (ordered signed true true chars compareChars)
  else if opMode = 4 then some (ordered signed false false chars compareChars)
  else if opMode = 5 then some (ordered signed false true chars compareChars)
  else none

/-- The comparison operators of a filter. -/
inductive Comparison where
  | eq
  | ne
  | gt
  | ge
  | lt
  | le
  deriving DecidableEq

namespace Comparison

def compareType : Comparison → CompareType
  | eq => .equal
  | ne => .notEqual
  | gt => .greaterThan
  | ge => .greaterThanOrEqualTo
  | lt => .lessThan
  | le => .lessThanOrEqualTo

/-- The mode `ResolveStringExpression` passes on. -/
def opMode : Comparison → Int
  | eq => 0
  | ne => 1
  | gt => 2
  | ge => 3
  | lt => 4
  | le => 5

/-- The operator under the order of unsigned bytes. -/
def holds : Comparison → List UInt8 → List UInt8 → Bool
  | eq, s, t => s = t
  | ne, s, t => s ≠ t
  | gt, s, t => t < s
  | ge, s, t => ¬ s < t
  | lt, s, t => s < t
  | le, s, t => ¬ t < s

end Comparison

inductive Kernel where
  | tableScan
  | filterExpression
  deriving DecidableEq

def Kernel.compare (kernel : Kernel) (signed : Bool) (op : Comparison) (s t : List UInt8) :
    Option Bool :=
  match kernel with
  | .tableScan => deviceComparisonString signed s t op.compareType
  | .filterExpression => stringComparisonExpression signed true s t op.opMode

/-- The first characters that differ are both below 0x80 or both from 0x80 on. -/
def Alike (signed : Bool) (s t : List UInt8) : Prop :=
  ∀ a b, firstMismatch s t = some (a, b) → signed = true → (a.toNat < 128 ↔ b.toNat < 128)

def ProperPrefix (s t : List UInt8) : Prop := s <+: t ∧ s ≠ t

/-- When an operator is evaluated as SQL does. -/
def Faithful (kernel : Kernel) (signed : Bool) (s t : List UInt8) : Comparison → Prop
  | .eq => True
  | .ne => kernel = .filterExpression → s.length = t.length →
      (s = t ∧ s ≠ []) ∨ (s ≠ t ∧ ∀ pair ∈ s.zip t, pair.1 ≠ pair.2)
  | .gt => Alike signed s t
  | .ge => Alike signed s t ∧ ¬ ProperPrefix s t
  | .lt => Alike signed s t ∧ ¬ ProperPrefix s t
  | .le => Alike signed s t

/-- The six results fit together. -/
def Consistent (result : Comparison → Option Bool) : Prop :=
  (∃! op, (op = .lt ∨ op = .eq ∨ op = .gt) ∧ result op = some true) ∧
    (result .le = some true ↔ result .lt = some true ∨ result .eq = some true) ∧
    (result .ge = some true ↔ result .lt ≠ some true) ∧
    (result .ne = some true ↔ result .eq ≠ some true)

section Ordering

variable {signed : Bool} {s t : List UInt8} {a b : UInt8}

theorem charValue_lt_iff (alike : signed = true → (a.toNat < 128 ↔ b.toNat < 128)) :
    charValue signed a < charValue signed b ↔ a < b := by
  have ha := a.toNat_lt
  have hb := b.toNat_lt
  rw [UInt8.lt_iff_toNat_lt]
  cases signed with
  | false => simp [charValue]
  | true =>
      have := alike rfl
      simp only [charValue, true_and]
      split <;> split <;> omega

/-- Across 0x80 the order of signed characters is the reverse one. -/
theorem charValue_lt_iff_of_not_alike
    (apart : ¬ (signed = true → (a.toNat < 128 ↔ b.toNat < 128))) :
    charValue signed a < charValue signed b ↔ b < a := by
  have ha := a.toNat_lt
  have hb := b.toNat_lt
  rw [UInt8.lt_iff_toNat_lt]
  cases signed with
  | false => simp at apart
  | true =>
      have : ¬ (a.toNat < 128 ↔ b.toNat < 128) := fun same => apart fun _ => same
      simp only [charValue, true_and]
      split <;> split <;> omega

theorem ordered_some (found : firstMismatch s t = some (a, b)) (greater inclusive : Bool) :
    ordered signed greater inclusive s t =
      if greater then decide (charValue signed b < charValue signed a)
      else decide (charValue signed a < charValue signed b) := by
  cases greater <;> simp [ordered, found]

theorem ordered_none (found : firstMismatch s t = none) (greater inclusive : Bool) :
    ordered signed greater inclusive s t =
      (inclusive && decide (s.length ≤ t.length) || greater && decide (t.length < s.length)) := by
  have least : (s.length == min t.length s.length) = decide (s.length ≤ t.length) := by
    rw [Bool.eq_iff_iff, beq_iff_eq, decide_eq_true_iff]
    omega
  have past : decide (min t.length s.length < s.length) = decide (t.length < s.length) := by
    rw [decide_eq_decide]
    omega
  have never : decide (s.length < min t.length s.length) = false := by
    rw [decide_eq_false_iff_not]
    omega
  simp only [ordered, found, least, past, never, Bool.and_false, Bool.or_false]

theorem alike_some (found : firstMismatch s t = some (a, b)) :
    Alike signed s t ↔ (signed = true → (a.toNat < 128 ↔ b.toNat < 128)) := by
  constructor
  · intro alike
    exact alike a b found
  · intro alike c d other
    rw [found, Option.some.injEq, Prod.mk.injEq] at other
    rwa [← other.1, ← other.2]

theorem alike_none (found : firstMismatch s t = none) : Alike signed s t := by
  intro a b other
  simp [found] at other

theorem properPrefix_none (found : firstMismatch s t = none) :
    ProperPrefix s t ↔ s.length < t.length := by
  rw [ProperPrefix, prefix_iff_of_none found, Ne, eq_iff_of_none found]
  omega

theorem swap_none (found : firstMismatch s t = none) : firstMismatch t s = none := by
  rw [firstMismatch_swap, found, Option.map_none]

theorem swap_some (found : firstMismatch s t = some (a, b)) :
    firstMismatch t s = some (b, a) := by
  rw [firstMismatch_swap, found, Option.map_some, Prod.swap_prod_mk]

/-- At a difference an ordering mode is right exactly where the characters are alike. -/
theorem ordered_some_iff (found : firstMismatch s t = some (a, b)) (inclusive : Bool) :
    (ordered signed true inclusive s t = decide (t < s) ↔ Alike signed s t) ∧
      (ordered signed false inclusive s t = decide (s < t) ↔ Alike signed s t) := by
  have ne := ne_of_some found
  simp only [ordered_some found, lt_iff_of_some found, lt_iff_of_some (swap_some found),
    alike_some found, if_true, Bool.false_eq_true, if_false, decide_eq_decide]
  by_cases alike : signed = true → (a.toNat < 128 ↔ b.toNat < 128)
  · have back : signed = true → (b.toNat < 128 ↔ a.toNat < 128) := fun h => (alike h).symm
    simp only [charValue_lt_iff alike, charValue_lt_iff back, true_iff]
    exact ⟨alike, alike⟩
  · have back : ¬ (signed = true → (b.toNat < 128 ↔ a.toNat < 128)) :=
      fun h => alike fun signed => (h signed).symm
    simp only [charValue_lt_iff_of_not_alike alike, charValue_lt_iff_of_not_alike back,
      iff_false_intro alike, iff_false]
    have : a.toNat ≠ b.toNat := fun same => ne (UInt8.toNat_inj.mp same)
    constructor
    · rw [UInt8.lt_iff_toNat_lt, UInt8.lt_iff_toNat_lt]
      omega
    · rw [UInt8.lt_iff_toNat_lt, UInt8.lt_iff_toNat_lt]
      omega

theorem not_lt_iff_of_some (found : firstMismatch s t = some (a, b)) : ¬ s < t ↔ t < s := by
  have ne : a.toNat ≠ b.toNat := fun same => ne_of_some found (UInt8.toNat_inj.mp same)
  rw [lt_iff_of_some found, lt_iff_of_some (swap_some found), UInt8.lt_iff_toNat_lt,
    UInt8.lt_iff_toNat_lt]
  omega

theorem greater_iff : ordered signed true false s t = decide (t < s) ↔ Alike signed s t := by
  cases found : firstMismatch s t with
  | none =>
      simp [ordered_none found, lt_iff_of_none (swap_none found), alike_none found]
  | some pair => exact (ordered_some_iff found false).1

theorem lessOrEqual_iff :
    ordered signed false true s t = decide (¬ t < s) ↔ Alike signed s t := by
  cases found : firstMismatch s t with
  | none =>
      simp [ordered_none found, lt_iff_of_none (swap_none found), alike_none found]
  | some pair =>
      rw [decide_eq_decide.mpr (not_lt_iff_of_some (swap_some found))]
      exact (ordered_some_iff found true).2

theorem less_iff :
    ordered signed false false s t = decide (s < t) ↔ Alike signed s t ∧ ¬ ProperPrefix s t := by
  cases found : firstMismatch s t with
  | none =>
      simp [ordered_none found, lt_iff_of_none found, alike_none found, properPrefix_none found]
  | some pair =>
      rw [(ordered_some_iff found false).2, iff_self_and]
      intro _ front
      exact not_prefix_of_some found front.1

theorem greaterOrEqual_iff :
    ordered signed true true s t = decide (¬ s < t) ↔ Alike signed s t ∧ ¬ ProperPrefix s t := by
  cases found : firstMismatch s t with
  | none =>
      simp only [ordered_none found, lt_iff_of_none found, alike_none found,
        properPrefix_none found, true_and, Bool.true_and]
      rw [Bool.eq_iff_iff, Bool.or_eq_true, decide_eq_true_iff, decide_eq_true_iff,
        decide_eq_true_iff]
      omega
  | some pair =>
      rw [decide_eq_decide.mpr (not_lt_iff_of_some found), (ordered_some_iff found true).1,
        iff_self_and]
      intro _ front
      exact not_prefix_of_some found front.1

end Ordering

variable {kernel : Kernel} {signed : Bool} {s t : List UInt8}

theorem equal_loop (s t : List UInt8) :
    (if t.length ≠ s.length then false else (firstMismatch s t).isNone) = decide (s = t) := by
  by_cases length : t.length = s.length
  · cases found : firstMismatch s t with
    | none => simp [length, eq_iff_of_none found]
    | some pair =>
        have differ : s ≠ t := fun same => not_prefix_of_some found (same ▸ List.prefix_refl s)
        simp [length, differ]
  · have differ : s ≠ t := fun same => length (same ▸ rfl)
    simp [length, differ]

theorem notEqual_loop (s t : List UInt8) :
    (if t.length ≠ s.length then true else (firstMismatch s t).isSome) = decide (s ≠ t) := by
  have equal := equal_loop s t
  by_cases length : t.length = s.length
  · simp only [length, ne_eq, not_true, if_false] at equal ⊢
    rw [← Option.not_isNone, equal, decide_not]
  · simp only [length, ne_eq, not_false_iff, if_true] at equal ⊢
    rw [decide_not, ← equal, Bool.not_false]

/-- The loop of the filter expression gives up at the first pair that agrees. -/
theorem notEqual_expression_iff :
    (Kernel.filterExpression.compare signed .ne s t = some (Comparison.ne.holds s t)) ↔
      (s.length = t.length → (s = t ∧ s ≠ []) ∨ (s ≠ t ∧ ∀ pair ∈ s.zip t, pair.1 ≠ pair.2)) := by
  by_cases length : s.length = t.length
  · have agree : s = t → ((s.zip t).all (fun pair => pair.1 != pair.2) = true ↔ s = []) := by
      rintro rfl
      cases s <;> simp
    by_cases same : s = t
    · have := agree same
      simp only [Kernel.compare, stringComparisonExpression, Comparison.opMode, Comparison.holds]
      grind
    · simp [Kernel.compare, stringComparisonExpression, Comparison.opMode, Comparison.holds,
        length, same]
  · have differ : s ≠ t := fun same => length (same ▸ rfl)
    simp [Kernel.compare, stringComparisonExpression, Comparison.opMode, Comparison.holds, length,
      differ, Ne.symm length]

theorem compare_eq_iff (kernel : Kernel) (signed : Bool) (op : Comparison) (s t : List UInt8) :
    kernel.compare signed op s t = some (op.holds s t) ↔ Faithful kernel signed s t op := by
  cases op with
  | eq =>
      have loop := equal_loop s t
      cases kernel with
      | tableScan => simpa [Kernel.compare, Comparison.compareType, deviceComparisonString,
          Comparison.holds, Faithful] using loop
      | filterExpression =>
          by_cases length : t.length = s.length
          · simpa [Kernel.compare, Comparison.opMode, stringComparisonExpression,
              Comparison.holds, Faithful, length] using loop
          · simpa [Kernel.compare, Comparison.opMode, stringComparisonExpression,
              Comparison.holds, Faithful, length] using loop
  | ne =>
      cases kernel with
      | tableScan => simpa [Kernel.compare, Comparison.compareType, deviceComparisonString,
          Comparison.holds, Faithful] using notEqual_loop s t
      | filterExpression =>
          rw [notEqual_expression_iff]
          simp [Faithful]
  | gt =>
      rw [Faithful, ← greater_iff]
      cases kernel <;> exact Option.some_inj
  | ge =>
      rw [Faithful, ← greaterOrEqual_iff]
      cases kernel <;> exact Option.some_inj
  | lt =>
      rw [Faithful, ← less_iff]
      cases kernel <;> exact Option.some_inj
  | le =>
      rw [Faithful, ← lessOrEqual_iff]
      cases kernel <;> exact Option.some_inj

/-- The first difference, or else the lengths, decide between the three. -/
theorem order_cases (s t : List UInt8) :
    (s < t ∧ s ≠ t ∧ ¬ t < s) ∨ (¬ s < t ∧ s = t ∧ ¬ t < s) ∨ (¬ s < t ∧ s ≠ t ∧ t < s) := by
  cases found : firstMismatch s t with
  | none =>
      rw [lt_iff_of_none found, lt_iff_of_none (swap_none found), Ne, eq_iff_of_none found]
      omega
  | some pair =>
      have back := not_lt_iff_of_some found
      have differ : s ≠ t := fun same => not_prefix_of_some found (same ▸ List.prefix_refl s)
      by_cases less : s < t
      · exact .inl ⟨less, differ, fun greater => back.mpr greater less⟩
      · exact .inr (.inr ⟨less, differ, back.mp less⟩)

theorem holds_trichotomy (s t : List UInt8) :
    ∃! op : Comparison, (op = .lt ∨ op = .eq ∨ op = .gt) ∧ op.holds s t = true := by
  rcases order_cases s t with ⟨less, differ, noGreater⟩ | ⟨noLess, same, noGreater⟩ |
    ⟨noLess, differ, greater⟩
  · refine ⟨.lt, ⟨by simp, decide_eq_true less⟩, ?_⟩
    rintro other ⟨rfl | rfl | rfl, holds⟩
    · rfl
    · exact absurd (of_decide_eq_true holds) differ
    · exact absurd (of_decide_eq_true holds) noGreater
  · refine ⟨.eq, ⟨by simp, decide_eq_true same⟩, ?_⟩
    rintro other ⟨rfl | rfl | rfl, holds⟩
    · exact absurd (of_decide_eq_true holds) noLess
    · rfl
    · exact absurd (of_decide_eq_true holds) noGreater
  · refine ⟨.gt, ⟨by simp, decide_eq_true greater⟩, ?_⟩
    rintro other ⟨rfl | rfl | rfl, holds⟩
    · exact absurd (of_decide_eq_true holds) noLess
    · exact absurd (of_decide_eq_true holds) differ
    · rfl

theorem holds_le_iff (s t : List UInt8) :
    Comparison.le.holds s t = true ↔
      Comparison.lt.holds s t = true ∨ Comparison.eq.holds s t = true := by
  simp only [Comparison.holds, decide_eq_true_iff]
  rcases order_cases s t with ⟨less, _, noGreater⟩ | ⟨_, same, noGreater⟩ |
    ⟨noLess, differ, greater⟩
  · exact ⟨fun _ => .inl less, fun _ => noGreater⟩
  · exact ⟨fun _ => .inr same, fun _ => noGreater⟩
  · constructor
    · intro noGreater
      exact absurd greater noGreater
    · rintro (less | same)
      · exact absurd less noLess
      · exact absurd same differ

theorem consistent_holds (s t : List UInt8) : Consistent fun op => some (op.holds s t) := by
  refine ⟨?_, ?_, ?_, ?_⟩
  · simpa only [Option.some_inj] using holds_trichotomy s t
  · simpa only [Option.some_inj] using holds_le_iff s t
  · simp only [Option.some_inj, Comparison.holds, decide_eq_true_iff, ne_eq]
  · simp only [Option.some_inj, Comparison.holds, decide_eq_true_iff, ne_eq]

/-- An operator is evaluated as SQL does exactly in the cases of `Faithful`; where all
six are, their results fit together. -/
theorem comparisons_faithful_iff (kernel : Kernel) (signed : Bool) (s t : List UInt8) :
    (∀ op, kernel.compare signed op s t = some (op.holds s t) ↔ Faithful kernel signed s t op) ∧
      ((∀ op, Faithful kernel signed s t op) →
        Consistent fun op => kernel.compare signed op s t) := by
  constructor
  · intro op
    exact compare_eq_iff kernel signed op s t
  · intro faithful
    have results : (fun op => kernel.compare signed op s t) = fun op => some (op.holds s t) :=
      funext fun op => (compare_eq_iff kernel signed op s t).mpr (faithful op)
    rw [results]
    exact consistent_holds s t

/-- The empty string is below every other one; both kernels deny it. -/
theorem empty_not_less : ¬ ∀ (kernel : Kernel) (signed : Bool) (op : Comparison)
    (s t : List UInt8), kernel.compare signed op s t = some (op.holds s t) := by
  intro right
  exact absurd (right .tableScan true .lt [] [97]) (by decide)

end StringComparison
