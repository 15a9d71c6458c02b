import Mathlib
import SiriusGpu.EvaluatorMeaning
import SiriusGpu.ProjectionExecution

/-!
# The meaning of an expression on a tuple

The value of an expression in a row depends on the values of this row only, and so does what its
execution needs to be exact. A tuple is a row by itself, apart from the columns it stands in.
-/

namespace TupleMeaning

open GpuColumns (GPUColumnType)
open GpuExpressions hiding isTrue
open ProjectionExecution (bound boundLoop)
open ColumnValues EvaluatorMeaning

section Tuples

abbrev Tuple := List Value

/-- The value of a column in a row, with its type. -/
def datumAt (c : Column) (row : Nat) : Value := (c.cell row).map (c.type, ·)

/-- The values of some columns in a row. -/
def tupleAt (columns : List Column) (row : Nat) : Tuple := columns.map (datumAt · row)

def tuplesOf (columns : List Column) (count : Nat) : List Tuple :=
  (List.range count).map (tupleAt columns)

def tuples (r : Relation) : List Tuple := tuplesOf r.columns r.rowCount

/-- A column of one row. -/
def columnOf (v : Value) : Column :=
  plainColumn (v.elim .boolean Prod.fst) [entryOf (v.map Prod.snd)] 0 false

variable (sql : Sql) (t : Tuple)

/-- The value of an expression on a tuple. -/
def value (e : Expression) : Outcome := meaning sql (t.map columnOf) 0 e

/-- An expression over a tuple whose execution leaves nothing out: no NULL stands beside an
operand that decides, and SQL does not raise. -/
structure Exact (e : Expression) : Prop where
  inside : bound t.length e = true
  keeps : Keeps sql (t.map columnOf) 0 true e

theorem tupleAt_columnOf : tupleAt (t.map columnOf) 0 = t := by
  rw [tupleAt, List.map_map]
  refine (List.map_congr_left fun v _ => ?_).trans (List.map_id t)
  cases v with
  | none => rfl
  | some d => rfl

theorem length_tupleAt (columns : List Column) (row : Nat) :
    (tupleAt columns row).length = columns.length := List.length_map _

theorem length_tuples (r : Relation) : (tuples r).length = r.rowCount := by
  rw [tuples, tuplesOf, List.length_map, List.length_range]

variable {t} in
theorem mem_tuples {r : Relation} :
    t ∈ tuples r ↔ ∃ row < r.rowCount, tupleAt r.columns row = t := by
  simp [tuples, tuplesOf]

end Tuples

section Congruence

variable {sql : Sql} {columns columns' : List Column} {row row' : Nat}

theorem reference_tuple (columns : List Column) (row index : Nat) :
    (columns[index]?).bind (fun c => (c.cell row).map (c.type, ·)) =
      (tupleAt columns row)[index]?.join := by
  rw [tupleAt, List.getElem?_map]
  cases columns[index]? <;> rfl

mutual

/-- Expressions have the same value in rows with the same values. -/
theorem meaning_congr (same : tupleAt columns row = tupleAt columns' row') :
    ∀ e, meaning sql columns row e = meaning sql columns' row' e
  | .between input lower upper => by
    rw [meaning, meaning, meaning_congr same input, meaning_congr same lower,
      meaning_congr same upper]
  | .case whenExpr thenExpr elseExpr => by
    rw [meaning, meaning, meaning_congr same whenExpr, meaning_congr same thenExpr,
      meaning_congr same elseExpr]
  | .cast child returnType => by rw [meaning, meaning, meaning_congr same child]
  | .comparison type left right => by
    rw [meaning, meaning, meaning_congr same left, meaning_congr same right]
  | .conjunction type children => by rw [meaning, meaning, meanings_congr same children]
  | .constant value => by rw [meaning, meaning]
  | .function name children returnType => by rw [meaning, meaning, meanings_congr same children]
  | .operator type children => by rw [meaning, meaning, meanings_congr same children]
  | .reference index => by rw [meaning, meaning, reference_tuple, reference_tuple, same]

theorem meanings_congr (same : tupleAt columns row = tupleAt columns' row') :
    ∀ es, meanings sql columns row es = meanings sql columns' row' es
  | [] => by rw [meanings, meanings]
  | child :: rest => by
    rw [meanings, meanings, meaning_congr same child, meanings_congr same rest]

end

/-- Every column has data. -/
def Data (columns : List Column) : Prop := ∀ c ∈ columns, c.entries ≠ none

mutual

theorem hasNullLeaf_data (data : Data columns) :
    ∀ e, bound columns.length e = true → hasNullLeaf columns e = false
  | .between input lower upper, inside => by
    simp only [bound, Bool.and_eq_true] at inside
    rw [hasNullLeaf, hasNullLeaf_data data input inside.1.1,
      hasNullLeaf_data data lower inside.1.2, hasNullLeaf_data data upper inside.2]
    rfl
  | .case whenExpr thenExpr elseExpr, inside => by
    simp only [bound, Bool.and_eq_true] at inside
    rw [hasNullLeaf, hasNullLeaf_data data whenExpr inside.1.1,
      hasNullLeaf_data data thenExpr inside.1.2, hasNullLeaf_data data elseExpr inside.2]
    rfl
  | .cast child returnType, inside => by
    rw [hasNullLeaf, hasNullLeaf_data data child inside]
  | .comparison type left right, inside => by
    simp only [bound, Bool.and_eq_true] at inside
    rw [hasNullLeaf, hasNullLeaf_data data left inside.1, hasNullLeaf_data data right inside.2]
    rfl
  | .conjunction type children, inside => by
    rw [hasNullLeaf, hasNullLeafLoop_data data children inside]
  | .constant value, _ => by rw [hasNullLeaf]
  | .function name children returnType, inside => by
    rw [hasNullLeaf, hasNullLeafLoop_data data children inside]
  | .operator type children, inside => by
    rw [hasNullLeaf, hasNullLeafLoop_data data children inside]
  | .reference index, inside => by
    have inside' : index < columns.length := by simpa [bound] using inside
    rw [hasNullLeaf, List.getElem?_eq_getElem inside', Option.all_some]
    exact Option.isNone_eq_false_iff.mpr
      (Option.isSome_iff_ne_none.mpr (data _ (List.getElem_mem inside')))

theorem hasNullLeafLoop_data (data : Data columns) :
    ∀ es, boundLoop columns.length es = true → hasNullLeafLoop columns es = false
  | [], _ => by rw [hasNullLeafLoop]
  | child :: rest, inside => by
    simp only [boundLoop, Bool.and_eq_true] at inside
    rw [hasNullLeafLoop, hasNullLeaf_data data child inside.1,
      hasNullLeafLoop_data data rest inside.2]
    rfl

end

mutual

/-- Expressions over columns with data are exact in rows with the same values. -/
theorem keeps_congr (same : tupleAt columns row = tupleAt columns' row') (data : Data columns)
    (data' : Data columns') : ∀ e exact, bound columns.length e = true →
      Keeps sql columns row exact e → Keeps sql columns' row' exact e
  | .between input lower upper, exact, inside, keeps => by
    simp only [bound, Bool.and_eq_true] at inside
    rw [Keeps] at keeps ⊢
    rw [← meaning_congr same input, ← meaning_congr same lower, ← meaning_congr same upper]
    exact ⟨keeps_congr same data data' input exact inside.1.1 keeps.1,
      keeps_congr same data data' lower exact inside.1.2 keeps.2.1,
      keeps_congr same data data' upper exact inside.2 keeps.2.2.1, keeps.2.2.2⟩
  | .case whenExpr thenExpr elseExpr, exact, inside, keeps => by
    have length := congrArg List.length same
    simp only [length_tupleAt] at length
    simp only [bound, Bool.and_eq_true] at inside
    rw [Keeps] at keeps ⊢
    rw [← meaning_congr same whenExpr]
    refine ⟨keeps_congr same data data' whenExpr true inside.1.1 keeps.1, ?_, fun v meant no =>
      keeps_congr same data data' elseExpr exact inside.2 (keeps.2.2 v meant no)⟩
    refine keeps.2.1.imp (fun raises => ⟨raises.1, ?_⟩)
      fun returns => ⟨returns.1, fun v meant yes =>
      ?_⟩
    · exact hasNullLeaf_data data' whenExpr (length ▸ inside.1.1)
    · exact keeps_congr same data data' thenExpr exact inside.1.2 (returns.2 v meant yes)
  | .cast child returnType, exact, inside, keeps => by
    rw [Keeps] at keeps ⊢
    rw [← meaning_congr same child]
    exact ⟨keeps_congr same data data' child exact inside keeps.1, keeps.2⟩
  | .comparison type left right, exact, inside, keeps => by
    simp only [bound, Bool.and_eq_true] at inside
    rw [Keeps] at keeps ⊢
    exact ⟨keeps_congr same data data' left exact inside.1 keeps.1,
      keeps_congr same data data' right exact inside.2 keeps.2⟩
  | .conjunction type children, exact, inside, keeps => by
    rw [Keeps] at keeps ⊢
    rw [← meanings_congr same children]
    exact ⟨keeps.1, keepsAll_congr same data data' children exact inside keeps.2.1, keeps.2.2⟩
  | .constant value, exact, _, keeps => by
    rw [Keeps] at keeps ⊢
    exact keeps
  | .function name children returnType, exact, inside, keeps => by
    rw [Keeps] at keeps ⊢
    rw [← meanings_congr same children]
    exact ⟨keepsAll_congr same data data' children exact inside keeps.1, keeps.2⟩
  | .operator type children, exact, inside, keeps => by
    rw [Keeps] at keeps ⊢
    rw [← meanings_congr same children]
    exact ⟨keepsAll_congr same data data' children _ inside keeps.1, keeps.2⟩
  | .reference index, exact, _, _ => by
    rw [Keeps]
    trivial

theorem keepsAll_congr (same : tupleAt columns row = tupleAt columns' row') (data : Data columns)
    (data' : Data columns') : ∀ es exact, boundLoop columns.length es = true →
      KeepsAll sql columns row exact es → KeepsAll sql columns' row' exact es
  | [], exact, _, _ => by
    rw [KeepsAll]
    trivial
  | child :: rest, exact, inside, keeps => by
    simp only [boundLoop, Bool.and_eq_true] at inside
    rw [KeepsAll] at keeps ⊢
    exact ⟨keeps_congr same data data' child exact inside.1 keeps.1,
      keepsAll_congr same data data' rest exact inside.2 keeps.2⟩

end

theorem value_tupleAt (columns : List Column) (row : Nat) (e : Expression) :
    value sql (tupleAt columns row) e = meaning sql columns row e :=
  meaning_congr (tupleAt_columnOf _) e

theorem data_columnOf (t : Tuple) : Data (t.map columnOf) := by
  intro c member
  obtain ⟨v, -, rfl⟩ := List.mem_map.mp member
  exact Option.some_ne_none _

/-- What is exact on a tuple is so in its row. -/
theorem Exact.keeps_row {e : Expression} (exact : Exact sql (tupleAt columns row) e)
    (data : Data columns) : Keeps sql columns row true e :=
  keeps_congr (tupleAt_columnOf _) (data_columnOf _) data e true
    (by rw [List.length_map]; exact exact.inside) exact.keeps

end Congruence

end TupleMeaning
