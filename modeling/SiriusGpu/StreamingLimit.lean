import Mathlib
import SiriusGpu.ColumnValues
import SiriusGpu.BlockTake
import SiriusGpu.FallibleMaps

/-!
# The streaming limit

`CreatePlan(LogicalLimit)` and the operator it makes. The executor runs the operator once in
each pipeline it is part of, so above a RIGHT join twice; every run starts with the full limit.
The runs are given by the relations handed in, in their order.
-/

namespace StreamingLimit

open GpuMemory (Exception Bytes)
open Materialize (materializable)
open ColumnValues BlockTake FallibleMaps

section Model

/-- `BoundLimitNode`. -/
inductive LimitNode
  | unset
  | constantValue (value : Nat)
  | constantPercentage
  | expressionValue
  | expressionPercentage
  deriving DecidableEq

structure PhysicalStreamingLimit where
  limitVal : LimitNode
  offsetVal : LimitNode

def createPlan (limitVal offsetVal : LimitNode) : Except Exception PhysicalStreamingLimit :=
  match limitVal with
  | .expressionPercentage | .constantPercentage =>
    .error (.notImplemented "Percentage limit not supported in GPU")
  | _ => .ok ⟨limitVal, offsetVal⟩

/-- The column of a limit: cut where the limit and the columns before it end. The byte count
is read from the offsets unless nothing is left. -/
def cutColumn (limitConst : Nat) (c : Column) : Column where
  type := c.type
  entries := c.entries.map (List.take limitConst)
  columnLength := min limitConst c.columnLength
  rowIds := none
  numBytes :=
    if 0 < min limitConst c.columnLength ∨ c.type ≠ .varchar then
      bytesOf c.type ((c.entries.getD []).take limitConst)
    else c.numBytes
  isUnique := c.isUnique
  long := by
    intro es same
    obtain ⟨old, entries, rfl⟩ := Option.map_eq_some_iff.mp same
    rw [List.length_take, c.long old entries]
  inside := by rintro _ _ _ ⟨⟩

/-- The loop over the columns. -/
def executeColumns (limitConst : Nat) : List Column → Except Exception (List Column)
  | [] => .ok []
  | c :: rest => do
    let materialized ← materialize c
    let limitConst := min limitConst materialized.columnLength
    let others ← executeColumns limitConst rest
    .ok (cutColumn limitConst materialized :: others)

def PhysicalStreamingLimit.execute (limit : PhysicalStreamingLimit) (input : List Column) :
    Except Exception (List Column) :=
  match limit.limitVal with
  | .constantValue limitConst => executeColumns limitConst input
  | _ => .error
      (.internal "BoundLimitNode::GetConstantValue called but limit is not a constant value")

/-- What the runs of a query hand on. -/
def query (limitVal offsetVal : LimitNode) (inputs : List (List Column)) :
    Except Exception (List (List Column)) := do
  let limit ← createPlan limitVal offsetVal
  inputs.mapM limit.execute

end Model

section Meaning

/-- Columns cut at the same row, with the byte counts of their strings. -/
structure Even (columns : List Column) (count : Nat) : Prop where
  some : columns ≠ []
  count : ∀ c ∈ columns, c.rowCount = count
  measured : ∀ c ∈ columns, c.Measured

/-- The rows that leave the operator are the window of those that enter it. -/
def Delivers (limitVal offsetVal : LimitNode) (limit offset : Nat) (inputs : List Relation) :
    Prop :=
  ∃ outputs counts, query limitVal offsetVal (inputs.map Relation.columns) = .ok outputs ∧
    List.Forall₂ Even outputs counts ∧
    (List.zipWith rowsOf outputs counts).flatten =
      ((inputs.flatMap Relation.rows).drop offset).take limit

/-- An exception is raised, which a fault is not. -/
def Raises (limitVal offsetVal : LimitNode) (inputs : List Relation) : Prop :=
  ∃ e, e ≠ .fault ∧ query limitVal offsetVal (inputs.map Relation.columns) = .error e

/-- What is expected of the kinds of limit and offset. -/
def Correct (limitVal offsetVal : LimitNode) (inputs : List Relation) : Prop :=
  match limitVal, offsetVal with
  | .constantValue limit, .unset => Delivers limitVal offsetVal limit 0 inputs
  | .constantValue limit, .constantValue offset =>
    Delivers limitVal offsetVal limit offset inputs
  | _, _ => Raises limitVal offsetVal inputs

/-- Every column has its data. -/
def Whole (r : Relation) : Prop := ∀ c ∈ r.columns, c.entries ≠ none

/-- The first column is entirely NULL, which cuts all others at zero rows. -/
def startsNull (r : Relation) : Bool := r.columns.head?.any (·.entries.isNone)

/-- The strings of a relation have no characters. -/
def NoCharacters (r : Relation) : Prop :=
  ∀ c ∈ r.columns, c.type = .varchar → ∀ e ∈ c.shown, e.bits = []

/-- What the operator leaves of the rows of one run. -/
def leftOf (limit : Nat) (r : Relation) : List Row :=
  if startsNull r then [] else r.rows.take limit

/-- Rows get lost in a run. -/
def Lost (inputs : List Relation) : Prop :=
  ∃ r ∈ inputs, startsNull r = true ∧ r.rowCount ≠ 0

/-- The inputs for which a limit and an offset have their rows. -/
structure Fits (limit offset : Nat) (inputs : List Relation) : Prop where
  able : ∀ r ∈ inputs, ∀ c ∈ r.columns, c.Materializes
  whole : ∀ r ∈ inputs, r.rowCount ≠ 0 → limit ≠ 0 → startsNull r = false → Whole r
  characters : ∀ r ∈ inputs, limit = 0 ∨ startsNull r = true → NoCharacters r
  window : Windowed limit offset (inputs.map Relation.rows)
  kept : Lost inputs → limit = 0

/-- The first column that is not materialized is of a type there is no case for. -/
def Refused (inputs : List Relation) : Prop :=
  ∃ front c back, inputs.flatMap Relation.columns = front ++ c :: back ∧
    (∀ c' ∈ front, c'.Materializes) ∧ materializable c.type = false

/-- When the operator does what is expected of it. -/
def Met (limitVal offsetVal : LimitNode) (inputs : List Relation) : Prop :=
  match limitVal, offsetVal with
  | .constantValue limit, .unset => Fits limit 0 inputs
  | .constantValue limit, .constantValue offset => Fits limit offset inputs
  | .constantValue _, _ => Refused inputs
  | _, _ => True

end Meaning

section Columns

variable {limit count : Nat} {c m out : Column} {cs outs : List Column}

/-- A column that is cut at a row. -/
structure CutAt (count : Nat) (c out : Column) : Prop where
  type : out.type = c.type
  rowCount : out.rowCount = count
  shown : out.shown = c.shown.take count
  some : count ≠ 0 → out.Measured
  none : count = 0 → (out.Measured ↔ (c.type = .varchar → bytesOf c.type c.shown = 0))

theorem direct_shown (direct : c.rowIds = none) : c.shown = c.entries.getD [] := by
  cases entries : c.entries <;> simp [Column.shown, entries, direct]

theorem cutColumn_cutAt (measured : c.Measured) (materialized : Materialized c m) :
    CutAt (min limit c.shown.length) c (cutColumn limit m) := by
  have shown := direct_shown materialized.direct
  rw [materialized.shown] at shown
  have taken : (cutColumn limit m).entries.getD [] = c.shown.take limit := by
    rw [shown]
    cases entries : m.entries <;> simp [cutColumn, entries]
  have length := materialized.columnLength
  constructor
  · exact materialized.type
  · simp [cutColumn, Column.rowCount, length]
  · rw [direct_shown rfl, taken, List.take_eq_take_min]
  · intro some string
    have some' : 0 < min limit m.columnLength := by omega
    rw [taken, shown]
    simp only [cutColumn, some', true_or, if_true]
  · intro none
    have type := materialized.type
    have cutType : (cutColumn limit m).type = c.type := type
    have empty : (cutColumn limit m).entries.getD [] = [] := by
      rw [taken, List.take_eq_nil_iff]
      rcases Nat.min_eq_zero_iff.mp none with zero | zero
      · exact Or.inl zero
      · exact Or.inr (List.length_eq_zero_iff.mp zero)
    rw [Column.Measured, cutType, empty]
    refine forall_congr' fun string => ?_
    have kept : (cutColumn limit m).numBytes = bytesOf c.type c.shown := by
      have zero : ¬ 0 < min limit m.columnLength := by omega
      rw [← materialized.measured measured (by rwa [type])]
      simp [cutColumn, zero, type, string]
    rw [kept, string]
    rfl

theorem executeColumns_able (run : executeColumns limit cs = .ok outs) :
    ∀ c ∈ cs, c.Materializes := by
  induction cs generalizing limit outs with
  | nil => simp
  | cons c rest ih =>
      rw [executeColumns] at run
      cases first : materialize c with
      | error e =>
          rw [first] at run
          cases run
      | ok m =>
          rw [first] at run
          cases others : executeColumns (min limit m.columnLength) rest with
          | error e =>
              simp only [bind, Except.bind, others] at run
              cases run
          | ok outs' =>
              intro c' member
              rcases List.mem_cons.mp member with rfl | later
              · exact materialize_able first
              · exact ih others c' later

/-- One step of the loop. -/
theorem executeColumns_cons (measured : c.Measured) (able : c.Materializes)
    {others : List Column}
    (rest : executeColumns (min limit c.shown.length) cs = .ok others) :
    ∃ out, executeColumns limit (c :: cs) = .ok (out :: others) ∧
      CutAt (min limit c.shown.length) c out := by
  obtain ⟨m, run, materialized⟩ := materialize_ok able
  have length := materialized.columnLength
  refine ⟨cutColumn (min limit m.columnLength) m, ?_, ?_⟩
  · rw [← length] at rest
    rw [executeColumns, run]
    simp only [bind, Except.bind, rest]
  · have cut : CutAt _ c (cutColumn (min limit m.columnLength) m) :=
      cutColumn_cutAt measured materialized
    rw [length, Nat.min_assoc, Nat.min_self] at cut
    rwa [length]

/-- All columns are cut at the same row if the limit leaves as many of each. -/
theorem executeColumns_uniform (able : ∀ c ∈ cs, c.Materializes)
    (measured : ∀ c ∈ cs, c.Measured) (each : ∀ c ∈ cs, min limit c.shown.length = count) :
    ∃ outs, executeColumns limit cs = .ok outs ∧ List.Forall₂ (CutAt count) cs outs := by
  induction cs generalizing limit with
  | nil => exact ⟨[], rfl, .nil⟩
  | cons c rest ih =>
      have here := each c List.mem_cons_self
      have later : ∀ c' ∈ rest, min (min limit c.shown.length) c'.shown.length = count := by
        intro c' member
        have := each c' (List.mem_cons_of_mem c member)
        omega
      obtain ⟨others, run, all⟩ := ih
        (fun c' member => able c' (List.mem_cons_of_mem c member))
        (fun c' member => measured c' (List.mem_cons_of_mem c member)) later
      obtain ⟨out, run', cutAt⟩ := executeColumns_cons (measured c List.mem_cons_self)
        (able c List.mem_cons_self) run
      rw [here] at cutAt
      exact ⟨out :: others, run', .cons cutAt all⟩

/-- Behind an empty first column nothing is left. -/
theorem executeColumns_headless (able : ∀ c' ∈ c :: cs, c'.Materializes)
    (measured : ∀ c' ∈ c :: cs, c'.Measured) (empty : c.shown = []) :
    ∃ outs, executeColumns limit (c :: cs) = .ok outs ∧
      List.Forall₂ (CutAt 0) (c :: cs) outs := by
  obtain ⟨others, run, all⟩ := executeColumns_uniform
    (fun c' member => able c' (List.mem_cons_of_mem c member))
    (fun c' member => measured c' (List.mem_cons_of_mem c member))
    (fun c' _ => Nat.zero_min c'.shown.length)
  have zero : min limit c.shown.length = 0 := by simp [empty]
  rw [← zero] at run
  obtain ⟨out, run', cutAt⟩ := executeColumns_cons (measured c List.mem_cons_self)
    (able c List.mem_cons_self) run
  rw [zero] at cutAt
  exact ⟨out :: others, run', .cons cutAt all⟩

/-- No column gets longer, and the first is cut by the limit only. -/
theorem executeColumns_bounds (measured : ∀ c ∈ cs, c.Measured)
    (run : executeColumns limit cs = .ok outs) :
    List.Forall₂ (fun c out => out.rowCount ≤ c.shown.length) cs outs ∧
      outs.head?.map Column.rowCount = cs.head?.map fun c => min limit c.shown.length := by
  have able := executeColumns_able run
  induction cs generalizing limit outs with
  | nil =>
      cases run
      exact ⟨.nil, rfl⟩
  | cons c rest ih =>
      obtain ⟨others, ran⟩ : ∃ others,
          executeColumns (min limit c.shown.length) rest = .ok others := by
        obtain ⟨m, first, materialized⟩ := materialize_ok (able c List.mem_cons_self)
        rw [executeColumns, first] at run
        cases ran : executeColumns (min limit m.columnLength) rest with
        | error e =>
            simp only [bind, Except.bind, ran] at run
            cases run
        | ok others => exact ⟨others, by rw [← ran, materialized.columnLength]⟩
      obtain ⟨out, run', cutAt⟩ := executeColumns_cons (measured c List.mem_cons_self)
        (able c List.mem_cons_self) ran
      rw [run] at run'
      cases run'
      have later := ih (fun c' member => measured c' (List.mem_cons_of_mem c member)) ran
        (fun c' member => able c' (List.mem_cons_of_mem c member))
      constructor
      · refine .cons ?_ later.1
        rw [cutAt.rowCount]
        exact Nat.min_le_right _ _
      · rw [List.head?_cons, List.head?_cons, Option.map_some, Option.map_some, cutAt.rowCount]

end Columns

section Runs

variable {limit count : Nat} {r : Relation} {outs : List Column}

theorem cell_cutAt {cs : List Column} (cut : List.Forall₂ (CutAt count) cs outs) {row : Nat}
    (inside : row < count) : outs.map (·.cell row) = cs.map (·.cell row) := by
  induction cut with
  | nil => rfl
  | cons first _ ih =>
      rw [List.map_cons, List.map_cons, ih]
      congr 1
      rw [Column.cell, Column.cell, first.shown, List.getElem?_take, if_pos inside]

/-- The rows of columns that are cut alike. -/
theorem rowsOf_cutAt (cut : List.Forall₂ (CutAt count) r.columns outs)
    (small : count ≤ r.rowCount) : rowsOf outs count = r.rows.take count := by
  rw [Relation.rows, rowsOf, rowsOf, ← List.map_take, List.take_range, Nat.min_eq_left small]
  exact List.map_congr_left fun row inside => cell_cutAt cut (List.mem_range.mp inside)

theorem bytesOf_eq_zero (es : List Entry) :
    bytesOf .varchar es = 0 ↔ ∀ e ∈ es, e.bits = [] := by
  simp [bytesOf, List.sum_eq_zero_iff]

theorem measured_cutAt {cs : List Column} (cut : List.Forall₂ (CutAt count) cs outs) :
    (∀ out ∈ outs, out.Measured) ↔
      (count = 0 → ∀ c ∈ cs, c.type = .varchar → ∀ e ∈ c.shown, e.bits = []) := by
  induction cut with
  | nil => simp
  | cons first _ ih =>
      rw [List.forall_mem_cons, ih]
      by_cases zero : count = 0
      · rw [first.none zero]
        simp only [zero, true_implies, List.forall_mem_cons]
        refine and_congr_left' (forall_congr' fun string => ?_)
        rw [string, bytesOf_eq_zero]
      · simp [zero, first.some zero]

/-- A run that cuts all columns alike has an even result if no byte count is left over. -/
theorem even_cutAt (cut : List.Forall₂ (CutAt count) r.columns outs) :
    Even outs count ↔ (count = 0 → NoCharacters r) := by
  rw [NoCharacters, ← measured_cutAt cut]
  constructor
  · exact Even.measured
  · intro measured
    constructor
    · intro none
      subst none
      exact r.some (List.forall₂_nil_right_iff.mp cut)
    · intro out member
      obtain ⟨c, -, cutAt⟩ := exists_of_forall₂ cut.flip member
      exact cutAt.rowCount
    · exact measured

theorem headless_iff : startsNull r = true ↔
    ∃ c rest, r.columns = c :: rest ∧ c.entries = none := by
  rw [startsNull]
  cases r.columns with
  | nil => simp
  | cons c rest => simp [Option.isNone_iff_eq_none]

/-- The runs that cut all columns alike. -/
def Alike (limit : Nat) (r : Relation) : Prop :=
  r.rowCount ≠ 0 → limit ≠ 0 → startsNull r = false → Whole r

/-- The number of rows a run leaves. -/
def leftCount (limit : Nat) (r : Relation) : Nat :=
  if startsNull r then 0 else min limit r.rowCount

theorem run_alike (able : ∀ c ∈ r.columns, c.Materializes)
    (alike : Alike limit r) : ∃ outs, executeColumns limit r.columns = .ok outs ∧
      List.Forall₂ (CutAt (leftCount limit r)) r.columns outs := by
  by_cases headless : startsNull r = true
  · obtain ⟨c, rest, columns, none⟩ := headless_iff.mp headless
    have empty : c.shown = [] := by simp [Column.shown, none]
    have measured := r.measured
    rw [leftCount, if_pos headless]
    rw [columns] at able measured ⊢
    exact executeColumns_headless able measured empty
  · have headed : startsNull r = false := by simpa using headless
    rw [leftCount, if_neg headless]
    refine executeColumns_uniform able r.measured fun c member => ?_
    by_cases data : c.entries = none
    · have empty : c.shown = [] := by simp [Column.shown, data]
      have gone : min limit r.rowCount = 0 := by
        by_contra some
        exact alike (by omega) (by omega) headed c member data
      rw [empty, gone]
      exact Nat.min_zero limit
    · rw [shown_count member data]

theorem left_eq (cut : List.Forall₂ (CutAt (leftCount limit r)) r.columns outs) :
    rowsOf outs (leftCount limit r) = leftOf limit r := by
  have small : leftCount limit r ≤ r.rowCount := by
    rw [leftCount]
    split <;> omega
  rw [rowsOf_cutAt cut small, leftCount, leftOf]
  split
  · rfl
  · rw [← rows_length, ← List.take_eq_take_min]

/-- A run whose result is even cuts all columns alike. -/
theorem alike_of_even (run : executeColumns limit r.columns = .ok outs)
    (even : Even outs count) : Alike limit r := by
  intro rows positive headed c member null
  obtain ⟨short, head⟩ := executeColumns_bounds r.measured run
  cases columns : r.columns with
  | nil => exact r.some columns
  | cons first rest =>
      have data : first.entries ≠ none := by
        intro null
        rw [headless_iff.mpr ⟨first, rest, columns, null⟩] at headed
        cases headed
      have length : first.shown.length = r.rowCount :=
        shown_count (by rw [columns]; exact List.mem_cons_self) data
      rw [columns, List.head?_cons, Option.map_some, length, Option.map_eq_some_iff] at head
      obtain ⟨out, first', cut⟩ := head
      have whole := even.count out (List.mem_of_mem_head? first')
      obtain ⟨out', inside, nothing⟩ := exists_of_forall₂ short member
      have same := even.count out' inside
      have empty : c.shown = [] := by simp [Column.shown, null]
      rw [empty, List.length_nil] at nothing
      omega

/-- What a run leaves: the first rows, in columns that are even under these conditions. -/
theorem run_even_iff (able : ∀ c ∈ r.columns, c.Materializes) (left : List Row) :
    (∃ outs count, executeColumns limit r.columns = .ok outs ∧ Even outs count ∧
        rowsOf outs count = left) ↔
      Alike limit r ∧ (limit = 0 ∨ startsNull r = true → NoCharacters r) ∧
        leftOf limit r = left := by
  have characters (outs : List Column)
      (cut : List.Forall₂ (CutAt (leftCount limit r)) r.columns outs) :
      Even outs (leftCount limit r) ↔ (limit = 0 ∨ startsNull r = true → NoCharacters r) := by
    rw [even_cutAt cut]
    by_cases headless : startsNull r = true
    · simp [leftCount, headless]
    · by_cases zero : limit = 0
      · simp [leftCount, zero]
      · simp only [leftCount, headless, zero, Bool.false_eq_true, if_false, or_self,
          false_implies, iff_true]
        intro gone c member string e shown
        have data : c.entries ≠ none := by
          intro null
          simp [Column.shown, null] at shown
        have length := shown_count member data
        have some := List.length_pos_of_mem shown
        omega
  constructor
  · rintro ⟨outs, count, run, even, rfl⟩
    have alike := alike_of_even run even
    obtain ⟨outs', run', cut⟩ := run_alike able alike
    rw [run] at run'
    cases run'
    have same : count = leftCount limit r := by
      obtain ⟨c, member⟩ := List.exists_mem_of_ne_nil _ r.some
      obtain ⟨out, inside, cutAt⟩ := exists_of_forall₂ cut member
      rw [← even.count out inside, cutAt.rowCount]
    subst same
    exact ⟨alike, (characters outs cut).mp even, (left_eq cut).symm⟩
  · rintro ⟨alike, free, rfl⟩
    obtain ⟨outs, run, cut⟩ := run_alike able alike
    exact ⟨outs, leftCount limit r, run, (characters outs cut).mpr free, left_eq cut⟩

end Runs

section Queries

variable {limitVal offsetVal : LimitNode} {limit offset : Nat} {inputs : List Relation}

theorem query_constant (columns : List (List Column)) :
    query (.constantValue limit) offsetVal columns =
      columns.mapM (executeColumns limit) := rfl

/-- What the runs leave, one behind the other. -/
theorem left_flatten (inputs : List Relation) :
    (inputs.map (leftOf limit)).flatten =
      cut limit ((inputs.filter fun r => !startsNull r).map Relation.rows) := by
  induction inputs with
  | nil => rfl
  | cons r rest ih =>
      rw [List.map_cons, List.flatten_cons, ih, leftOf, List.filter_cons]
      by_cases headless : startsNull r = true
      · simp [headless]
      · simp [headless, cut_cons]

/-- Runs without rows may be left out. -/
theorem cut_kept (kept : ¬ Lost inputs) :
    cut limit ((inputs.filter fun r => !startsNull r).map Relation.rows) =
      cut limit (inputs.map Relation.rows) := by
  induction inputs with
  | nil => rfl
  | cons r rest ih =>
      have rest' : ¬ Lost rest := by
        rintro ⟨r', member, lost⟩
        exact kept ⟨r', List.mem_cons_of_mem r member, lost⟩
      rw [List.filter_cons, List.map_cons, cut_cons, ← ih rest']
      by_cases headless : startsNull r = true
      · have empty : r.rowCount = 0 := by
          by_contra some
          exact kept ⟨r, List.mem_cons_self, headless, some⟩
        simp [headless, Relation.rows, rowsOf, empty]
      · simp [headless, cut_cons]

/-- What a run of the operator may leave. -/
def Leaves (limit : Nat) (r : Relation) (left : List Row) : Prop :=
  ∃ outs count, executeColumns limit r.columns = .ok outs ∧ Even outs count ∧
    rowsOf outs count = left

theorem leaves_all (inputs : List Relation) (lefts : List (List Row)) :
    (∃ outputs counts, (inputs.map Relation.columns).mapM (executeColumns limit) = .ok outputs ∧
        List.Forall₂ Even outputs counts ∧ List.zipWith rowsOf outputs counts = lefts) ↔
      List.Forall₂ (Leaves limit) inputs lefts := by
  simp only [mapM_ok_iff]
  induction inputs generalizing lefts with
  | nil =>
      rw [List.forall₂_nil_left_iff]
      constructor
      · rintro ⟨outputs, counts, ran, even, rfl⟩
        cases ran
        cases even
        rfl
      · rintro rfl
        exact ⟨[], [], .nil, .nil, rfl⟩
  | cons r rest ih =>
      rw [List.forall₂_cons_left_iff]
      constructor
      · rintro ⟨outputs, counts, ran, even, rfl⟩
        rw [List.map_cons] at ran
        cases ran with
        | cons run later =>
            cases even with
            | cons evenHere evenLater =>
                refine ⟨_, _, ⟨_, _, run, evenHere, rfl⟩, ?_, rfl⟩
                exact (ih _).mp ⟨_, _, later, evenLater, rfl⟩
      · rintro ⟨left, lefts', ⟨outs, count, run, even, rfl⟩, later, rfl⟩
        obtain ⟨outputs, counts, ran, evens, rfl⟩ := (ih lefts').mpr later
        exact ⟨outs :: outputs, count :: counts, .cons run ran, .cons even evens, rfl⟩

theorem leaves_iff (able : ∀ r ∈ inputs, ∀ c ∈ r.columns, c.Materializes)
    (lefts : List (List Row)) : List.Forall₂ (Leaves limit) inputs lefts ↔
      (∀ r ∈ inputs, Alike limit r ∧ (limit = 0 ∨ startsNull r = true → NoCharacters r)) ∧
        inputs.map (leftOf limit) = lefts := by
  induction inputs generalizing lefts with
  | nil =>
      rw [List.forall₂_nil_left_iff]
      constructor
      · rintro rfl
        exact ⟨List.forall_mem_nil _, rfl⟩
      · rintro ⟨-, rfl⟩
        rfl
  | cons r rest ih =>
      have here (left : List Row) : Leaves limit r left ↔ _ :=
        run_even_iff (able r List.mem_cons_self) left
      have later := ih fun r' member => able r' (List.mem_cons_of_mem r member)
      rw [List.forall₂_cons_left_iff]
      constructor
      · rintro ⟨left, lefts', leaves, others, rfl⟩
        obtain ⟨alike, free, rfl⟩ := (here left).mp leaves
        obtain ⟨all, rfl⟩ := (later lefts').mp others
        exact ⟨List.forall_mem_cons.mpr ⟨⟨alike, free⟩, all⟩, rfl⟩
      · rintro ⟨all, rfl⟩
        obtain ⟨⟨alike, free⟩, others⟩ := List.forall_mem_cons.mp all
        exact ⟨_, _, (here _).mpr ⟨alike, free, rfl⟩, (later _).mpr ⟨others, rfl⟩, rfl⟩

theorem delivers_iff_leaves : Delivers (.constantValue limit) offsetVal limit offset inputs ↔
    ∃ lefts, List.Forall₂ (Leaves limit) inputs lefts ∧
      lefts.flatten = ((inputs.flatMap Relation.rows).drop offset).take limit := by
  constructor
  · rintro ⟨outputs, counts, ran, even, window⟩
    exact ⟨_, (leaves_all inputs _).mp ⟨outputs, counts, ran, even, rfl⟩, window⟩
  · rintro ⟨lefts, leaves, window⟩
    obtain ⟨outputs, counts, ran, even, rfl⟩ := (leaves_all inputs lefts).mpr leaves
    exact ⟨outputs, counts, ran, even, window⟩

/-- What is left is the window, unless rows are lost. -/
theorem window_iff (kept : ¬ Lost inputs) : (inputs.map (leftOf limit)).flatten =
      ((inputs.flatMap Relation.rows).drop offset).take limit ↔
    Windowed limit offset (inputs.map Relation.rows) := by
  rw [left_flatten, cut_kept kept, ← cut_eq_window_iff, List.flatMap_def]

/-- The window is delivered under the conditions on the inputs. -/
theorem delivers_of_fits (fits : Fits limit offset inputs) :
    Delivers (.constantValue limit) offsetVal limit offset inputs := by
  refine delivers_iff_leaves.mpr ⟨_, (leaves_iff fits.able _).mpr ⟨fun r member =>
    ⟨fits.whole r member, fits.characters r member⟩, rfl⟩, ?_⟩
  by_cases lost : Lost inputs
  · rw [left_flatten, fits.kept lost, cut_zero, List.take_zero]
  · exact (window_iff lost).mpr fits.window

/-- Unless rows are lost, they are needed. -/
theorem fits_of_delivers (kept : ¬ Lost inputs)
    (delivers : Delivers (.constantValue limit) offsetVal limit offset inputs) :
    Fits limit offset inputs := by
  obtain ⟨lefts, leaves, window⟩ := delivers_iff_leaves.mp delivers
  have able : ∀ r ∈ inputs, ∀ c ∈ r.columns, c.Materializes := by
    intro r member
    obtain ⟨left, -, outs, count, run, -⟩ := exists_of_forall₂ leaves member
    exact executeColumns_able run
  obtain ⟨all, rfl⟩ := (leaves_iff able lefts).mp leaves
  exact ⟨able, fun r member => (all r member).1, fun r member => (all r member).2,
    (window_iff kept).mp window, fun lost => absurd lost kept⟩

/-- The loop over the columns fails where a materialization does. -/
theorem executeColumns_error {cs : List Column} {e : Exception} :
    executeColumns limit cs = .error e ↔ cs.mapM materialize = .error e := by
  induction cs generalizing limit with
  | nil => exact iff_of_false nofun nofun
  | cons c rest ih =>
      rw [executeColumns, List.mapM_cons, bind_error_iff, bind_error_iff]
      refine or_congr Iff.rfl (exists_congr fun m => and_congr_right fun _ => ?_)
      rw [bind_error_iff, bind_error_iff, ih]
      simp [pure, Except.pure]

theorem query_error {columns : List (List Column)} {e : Exception} :
    columns.mapM (executeColumns limit) = .error e ↔
      columns.flatten.mapM materialize = .error e := by
  induction columns with
  | nil => exact iff_of_false nofun nofun
  | cons cs rest ih =>
      have runs := ok_iff_of_errors (@executeColumns_error limit cs)
      rw [List.mapM_cons, List.flatten_cons, List.mapM_append, bind_error_iff, bind_error_iff,
        executeColumns_error]
      refine or_congr Iff.rfl ?_
      simp only [bind_error_iff, pure, Except.pure, reduceCtorEq, and_false, exists_false, or_false,
        exists_and_right, ih, runs]

theorem materialize_refused {c : Column} :
    (∃ e, e ≠ .fault ∧ materialize c = .error e) ↔ materializable c.type = false := by
  constructor
  · rintro ⟨e, defined, failed⟩
    by_contra type
    have type' : materializable c.type = true := by simpa using type
    by_cases gathered : c.Gathered
    · obtain ⟨m, run, -⟩ := materialize_ok ⟨type', gathered⟩
      rw [run] at failed
      cases failed
    · rw [materialize_fault type' gathered] at failed
      exact defined (Except.error.inj failed).symm
  · intro type
    refine ⟨_, ?_, materialize_error type⟩
    cases c.type <;> exact nofun

/-- A constant limit is executed whatever the offset is. -/
theorem raises_iff : Raises (.constantValue limit) offsetVal inputs ↔ Refused inputs := by
  have raised (e : Exception) :
      query (.constantValue limit) offsetVal (inputs.map Relation.columns) = .error e ↔
        ∃ front c back, inputs.flatMap Relation.columns = front ++ c :: back ∧
          (∀ c' ∈ front, c'.Materializes) ∧ materialize c = .error e := by
    rw [query_constant, query_error, ← List.flatMap_def, mapM_error_iff]
    refine exists_congr fun front => exists_congr fun c => exists_congr fun back =>
      and_congr_right fun _ => and_congr_left fun _ => forall₂_congr fun c' _ => ?_
    constructor
    · rintro ⟨m, run⟩
      exact materialize_able run
    · intro able
      obtain ⟨m, run, -⟩ := materialize_ok able
      exact ⟨m, run⟩
  constructor
  · rintro ⟨e, defined, run⟩
    obtain ⟨front, c, back, split, before, failed⟩ := (raised e).mp run
    exact ⟨front, c, back, split, before, materialize_refused.mp ⟨e, defined, failed⟩⟩
  · rintro ⟨front, c, back, split, before, type⟩
    obtain ⟨e, defined, failed⟩ := materialize_refused.mpr type
    exact ⟨e, defined, (raised e).mpr ⟨front, c, back, split, before, failed⟩⟩

/-- A limit of another kind is refused by the plan or when it is executed. -/
theorem raises_of_kind (runs : inputs ≠ [])
    (kind : ∀ value, limitVal ≠ .constantValue value) : Raises limitVal offsetVal inputs := by
  obtain ⟨r, rest, rfl⟩ := List.exists_cons_of_ne_nil runs
  have defined (message : String) : Exception.internal message ≠ .fault := nofun
  have refused (limit : PhysicalStreamingLimit) (same : limit.limitVal = limitVal) :
      ((r :: rest).map Relation.columns).mapM limit.execute = .error
        (.internal
          "BoundLimitNode::GetConstantValue called but limit is not a constant value") := by
    have first : limit.execute r.columns = .error
        (.internal
          "BoundLimitNode::GetConstantValue called but limit is not a constant value") := by
      rw [PhysicalStreamingLimit.execute, same]
      cases limitVal with
      | constantValue value => exact absurd rfl (kind value)
      | _ => rfl
    rw [List.map_cons, List.mapM_cons, first]
    rfl
  cases limitVal with
  | constantValue value => exact absurd rfl (kind value)
  | unset => exact ⟨_, defined _, refused ⟨.unset, offsetVal⟩ rfl⟩
  | expressionValue => exact ⟨_, defined _, refused ⟨.expressionValue, offsetVal⟩ rfl⟩
  | constantPercentage => exact ⟨.notImplemented _, nofun, rfl⟩
  | expressionPercentage => exact ⟨.notImplemented _, nofun, rfl⟩

/-- When the limit operator does what is expected of it; where rows are lost, the others may happen
to make up for them. -/
theorem limit_correct (runs : inputs ≠ []) :
    (Met limitVal offsetVal inputs → Correct limitVal offsetVal inputs) ∧
      (Correct limitVal offsetVal inputs → Met limitVal offsetVal inputs ∨ Lost inputs) := by
  have window (limit offset : Nat) :
      (Fits limit offset inputs → Delivers (.constantValue limit) offsetVal limit offset inputs) ∧
        (Delivers (.constantValue limit) offsetVal limit offset inputs →
          Fits limit offset inputs ∨ Lost inputs) :=
    ⟨delivers_of_fits, fun delivers =>
      (em (Lost inputs)).symm.imp_left fun kept => fits_of_delivers kept delivers⟩
  cases limitVal with
  | constantValue limit =>
      cases offsetVal with
      | unset => exact window limit 0
      | constantValue offset => exact window limit offset
      | _ => exact ⟨raises_iff.mpr, fun raises => .inl (raises_iff.mp raises)⟩
  | _ =>
      refine ⟨fun _ => raises_of_kind runs ?_, fun _ => .inl trivial⟩
      intro value same
      cases same

end Queries

section Witness

/-- Strings, of which the last is NULL, selected in another order. -/
def strings : Column where
  type := .varchar
  entries := some [⟨[97], true⟩, ⟨[98, 99], true⟩, ⟨[], false⟩]
  columnLength := 3
  rowIds := some [1, 0, 2, 0]
  numBytes := 3
  isUnique := false
  long := by rintro _ ⟨⟩; rfl
  inside := by rintro _ ⟨⟩ _ ⟨⟩; decide

/-- A column of one byte per row. -/
def bytes : Column :=
  plainColumn .boolean [⟨[1], true⟩, ⟨[0], true⟩, ⟨[0], false⟩, ⟨[1], true⟩] 4 false

def fourRows : Relation where
  columns := [strings, bytes]
  rowCount := 4
  some := List.cons_ne_nil _ _
  even := by
    intro c member _
    simp only [List.mem_cons, List.not_mem_nil, or_false] at member
    rcases member with rfl | rfl <;> rfl
  empty := by
    intro c member null
    simp only [List.mem_cons, List.not_mem_nil, or_false] at member
    rcases member with rfl | rfl <;> cases null
  measured := by decide

/-- What `GetData` of a RIGHT join hands on if no row of its build side is left. -/
def noRows : Relation where
  columns := [emptyColumn .int64, emptyColumn .boolean]
  rowCount := 0
  some := List.cons_ne_nil _ _
  even := by
    intro c member data
    simp only [List.mem_cons, List.not_mem_nil, or_false] at member
    rcases member with rfl | rfl <;> exact absurd rfl data
  empty := by
    intro c member _
    simp only [List.mem_cons, List.not_mem_nil, or_false] at member
    rcases member with rfl | rfl <;> exact .inl rfl
  measured := by decide

theorem rows_kept : ¬ Lost [fourRows, noRows] := by
  rintro ⟨r, member, headless, some⟩
  simp only [List.mem_cons, List.not_mem_nil, or_false] at member
  rcases member with rfl | rfl
  · cases headless
  · exact some rfl

theorem rows_materialize : ∀ r ∈ [fourRows, noRows], ∀ c ∈ r.columns, c.Materializes := by
  intro r member c inside
  simp only [List.mem_cons, List.not_mem_nil, or_false] at member
  rcases member with rfl | rfl <;>
    · simp only [fourRows, noRows, List.mem_cons, List.not_mem_nil, or_false] at inside
      rcases inside with rfl | rfl <;> refine ⟨rfl, fun string data ids late => ?_⟩
      all_goals cases late
      all_goals decide

/-- The first three of four rows. -/
theorem first_rows_delivered : Correct (.constantValue 3) .unset [fourRows, noRows] := by
  refine (limit_correct (List.cons_ne_nil _ _)).1 ⟨rows_materialize, ?_, ?_, ?_, ?_⟩
  · intro r member some _ _ c inside
    simp only [List.mem_cons, List.not_mem_nil, or_false] at member
    rcases member with rfl | rfl
    · simp only [fourRows, List.mem_cons, List.not_mem_nil, or_false] at inside
      rcases inside with rfl | rfl <;> exact Option.some_ne_none _
    · exact absurd rfl some
  · rintro r member (zero | headless)
    · cases zero
    · simp only [List.mem_cons, List.not_mem_nil, or_false] at member
      rcases member with rfl | rfl
      · cases headless
      · intro c inside _ e shown
        simp only [noRows, List.mem_cons, List.not_mem_nil, or_false] at inside
        rcases inside with rfl | rfl <;> cases shown
  · have single : (([fourRows, noRows].map Relation.rows).filter (!·.isEmpty)).length ≤ 1 := by
      decide
    exact Or.inr (Or.inr (Or.inr ⟨single, Or.inl rfl⟩))
  · exact fun lost => absurd lost rows_kept

/-- The second row is not delivered for an offset. -/
theorem offset_ignored : ¬ Correct (.constantValue 1) (.constantValue 1) [fourRows, noRows] := by
  intro correct
  have fits : Fits 1 1 [fourRows, noRows] := fits_of_delivers rows_kept correct
  rcases fits.window with zero | nothing | ⟨zero, -⟩ | ⟨-, zero | ⟨-, repeats⟩⟩
  · cases zero
  · exact absurd nothing (by decide)
  · cases zero
  · cases zero
  · exact absurd (repeats 0 Nat.zero_lt_one) (by decide)

end Witness

end StreamingLimit
