import Mathlib
import SiriusGpu.GpuMemory

/-!
# Duplicate elimination

`cudf_duplicate_elimination`, the helper of a GROUP BY without aggregates and of delim
joins. It hands its key columns to the groupby of cudf and takes back the keys of
`get_groups`, which are all rows in another order: the offsets of the groups are not used.

The columns are the materialized ones that the callers pass, taken as lists of values.
-/

namespace DuplicateElimination

open GpuMemory (Exception)

variable {V : Type}

section Model

/-- A row of keys; `none` is NULL. -/
abbrev Tuple (V : Type) := List (Option V)

/-- A key column; its data pointer may be null. -/
structure KeyColumn (V : Type) where
  data : Option (List (Option V))
  isUnique : Bool

def KeyColumn.values (c : KeyColumn V) : List (Option V) := c.data.getD []

def KeyColumn.columnLength (c : KeyColumn V) : Nat := c.values.length

/-- Some rows of columns; a column without data is NULL in all of them. -/
def rowsOver (keys : List (KeyColumn V)) (count : Nat) : List (Tuple V) :=
  (List.range count).map fun i => keys.map fun c => (c.values[i]?).join

/-- The rows of some columns; the first column tells how many. -/
def rowsOf (keys : List (KeyColumn V)) : List (Tuple V) :=
  rowsOver keys (keys.head?.elim 0 KeyColumn.columnLength)

/-- What `get_groups` returns: rows in which equal ones are adjacent, and where they start. -/
structure Groups (V : Type) where
  keys : List (Tuple V)
  offsets : List Nat

/-- A column without rows. -/
def emptied (c : KeyColumn V) : KeyColumn V := { c with data := c.data.map fun _ => [] }

def setFromCudfColumn (c : KeyColumn V) (values : List (Option V)) : KeyColumn V :=
  { c with data := some values }

def getColumn (rows : List (Tuple V)) (key : Nat) : List (Option V) :=
  rows.map fun row => (row[key]?).join

/-- The groupby object is made with the default policy, which excludes NULL keys. -/
def cudfDuplicateElimination (getGroups : List (Tuple V) → Groups V) (keys : List (KeyColumn V)) :
    Except Exception (List (KeyColumn V)) :=
  match keys with
  | [] => .error (.internal "Attempted to access index within vector")
  | first :: _ =>
    if first.columnLength = 0 then .ok (keys.map emptied)
    else if keys.any (·.data.isNone) then
      .error (.notImplemented "Group by on non-nullable column not supported")
    else if keys.any (·.columnLength ≠ first.columnLength) then
      .error (.internal "cudf: Column size mismatch")
    else
      let result := getGroups (rowsOf keys)
      .ok (keys.mapIdx fun key c => setFromCudfColumn c (getColumn result.keys key))

end Model

section Meaning

/-- No value of a row is NULL. -/
def whole (row : Tuple V) : Bool := row.all Option.isSome

/-- Where runs of the given lengths start. -/
def starts (start : Nat) : List Nat → List Nat
  | [] => []
  | length :: rest => start :: starts (start + length) rest

/-- The groups of some rows: the rows without NULL, one run for each of the distinct ones. -/
structure Grouped (rows : List (Tuple V)) (result : Groups V) : Prop where
  kept : result.keys.Perm (rows.filter whole)
  runs : ∃ runs : List (Tuple V × Nat), (runs.map Prod.fst).Nodup ∧
    result.keys = runs.flatMap (fun run => List.replicate (run.2 + 1) run.1) ∧
    result.offsets = starts 0 (runs.map fun run => run.2 + 1)

/-- Columns of one length; with rows they have their data. -/
def Aligned (keys : List (KeyColumn V)) (count : Nat) : Prop :=
  keys ≠ [] ∧ ∀ c ∈ keys, c.columnLength = count

/-- Columns as a relation passes them: of one length, or without data. -/
def Passed (keys : List (KeyColumn V)) (count : Nat) : Prop :=
  keys ≠ [] ∧ ∀ c ∈ keys, c.columnLength = count ∨ c.data = none

instance (keys : List (KeyColumn Nat)) (count : Nat) : Decidable (Passed keys count) :=
  inferInstanceAs (Decidable (_ ∧ _))

/-- The distinct rows, each once. -/
structure Eliminates (rows : List (Tuple V)) (out : List (KeyColumn V)) : Prop where
  aligned : Aligned out (rowsOf out).length
  once : (rowsOf out).Nodup
  same : ∀ row, row ∈ rowsOf out ↔ row ∈ rows

/-- The helper returns the distinct rows, and applied to them it changes nothing. -/
def Correct (getGroups : List (Tuple V) → Groups V) (keys : List (KeyColumn V)) (count : Nat) :
    Prop :=
  ∃ out, cudfDuplicateElimination getGroups keys = .ok out ∧ Eliminates (rowsOver keys count) out ∧
    ∃ again, cudfDuplicateElimination getGroups out = .ok again ∧
      (rowsOf again).Perm (rowsOf out)

end Meaning

section Rows

variable {keys : List (KeyColumn V)} {count : Nat}

theorem rowsOf_eq (aligned : Aligned keys count) : rowsOf keys = rowsOver keys count := by
  obtain ⟨some, columns⟩ := aligned
  cases keys with
  | nil => exact absurd rfl some
  | cons first rest =>
      rw [rowsOf, List.head?_cons, Option.elim_some, columns first List.mem_cons_self]

theorem rowsOf_length (aligned : Aligned keys count) : (rowsOf keys).length = count := by
  rw [rowsOf_eq aligned, rowsOver, List.length_map, List.length_range]

theorem row_length {row : Tuple V} (here : row ∈ rowsOf keys) : row.length = keys.length := by
  obtain ⟨i, -, rfl⟩ := List.mem_map.mp here
  exact List.length_map _

/-- Columns taken from rows have these rows. -/
theorem rowsOf_columns (some : keys ≠ []) {rows : List (Tuple V)}
    (wide : ∀ row ∈ rows, row.length = keys.length) :
    Aligned (keys.mapIdx fun key c => setFromCudfColumn c (getColumn rows key)) rows.length ∧
      rowsOf (keys.mapIdx fun key c => setFromCudfColumn c (getColumn rows key)) = rows := by
  have aligned : Aligned (keys.mapIdx fun key c => setFromCudfColumn c (getColumn rows key))
      rows.length := by
    constructor
    · simpa using some
    · intro c member
      obtain ⟨key, inside, rfl⟩ := List.mem_mapIdx.mp member
      exact List.length_map _
  refine ⟨aligned, ?_⟩
  rw [rowsOf_eq aligned, rowsOver]
  refine List.ext_getElem (by simp) fun i inside here => ?_
  have width := wide rows[i] (List.getElem_mem here)
  refine List.ext_getElem (by simp [width]) fun key _ place => ?_
  simp [setFromCudfColumn, KeyColumn.values, getColumn, here, place]

theorem columnLength_emptied (c : KeyColumn V) : (emptied c).columnLength = 0 := by
  rw [KeyColumn.columnLength, KeyColumn.values, emptied]
  cases c.data <;> rfl

theorem emptied_aligned (aligned : Aligned keys count) : Aligned (keys.map emptied) 0 := by
  constructor
  · simpa using aligned.1
  · intro c member
    obtain ⟨old, -, rfl⟩ := List.mem_map.mp member
    exact columnLength_emptied old

end Rows

section Elimination

variable {getGroups : List (Tuple V) → Groups V} {keys : List (KeyColumn V)} {count : Nat}

/-- The helper returns all rows without NULL, in another order. -/
theorem returns_whole_rows (cudf : ∀ rows, Grouped rows (getGroups rows))
    (aligned : Aligned keys count) :
    ∃ out, cudfDuplicateElimination getGroups keys = .ok out ∧
      Aligned out (rowsOf out).length ∧ (rowsOf out).Perm ((rowsOf keys).filter whole) := by
  have lengths := aligned.2
  have size := rowsOf_length aligned
  cases keys with
  | nil => exact absurd rfl aligned.1
  | cons first rest =>
      have head := lengths first List.mem_cons_self
      by_cases empty : count = 0
      · subst empty
        have none := emptied_aligned aligned
        have length := rowsOf_length none
        refine ⟨(first :: rest).map emptied, if_pos head, by rwa [length], ?_⟩
        rw [List.length_eq_zero_iff.mp length, List.length_eq_zero_iff.mp size]
        exact List.Perm.refl _
      · have present : (first :: rest).any (·.data.isNone) = false := by
          rw [List.any_eq_false]
          intro c member null
          have length := lengths c member
          rw [KeyColumn.columnLength, KeyColumn.values, Option.isNone_iff_eq_none.mp null] at length
          exact empty length.symm
        have even : (first :: rest).any (·.columnLength ≠ first.columnLength) = false := by
          rw [List.any_eq_false]
          intro c member
          simp [lengths c member, head]
        have kept := (cudf (rowsOf (first :: rest))).kept
        have wide : ∀ row ∈ (getGroups (rowsOf (first :: rest))).keys,
            row.length = (first :: rest).length := by
          intro row member
          exact row_length (List.mem_of_mem_filter (kept.mem_iff.mp member))
        obtain ⟨whole, same⟩ := rowsOf_columns aligned.1 wide
        refine ⟨_, ?_, by rwa [same], by rwa [same]⟩
        rw [cudfDuplicateElimination, if_neg (by rwa [head]), if_neg (by simp [present]),
          if_neg (by rw [even]; exact Bool.false_ne_true)]

/-- In columns with data the distinct rows are returned exactly under these conditions. -/
theorem eliminates_aligned (cudf : ∀ rows, Grouped rows (getGroups rows))
    (aligned : Aligned keys count) :
    (∃ out, cudfDuplicateElimination getGroups keys = .ok out ∧ Eliminates (rowsOf keys) out ∧
      ∃ again, cudfDuplicateElimination getGroups out = .ok again ∧
        (rowsOf again).Perm (rowsOf out)) ↔
      (rowsOf keys).Nodup ∧ ∀ row ∈ rowsOf keys, none ∉ row := by
  have noNull (row : Tuple V) : whole row = true ↔ none ∉ row := by
    simp only [whole, List.all_eq_true]
    constructor
    · intro all null
      exact absurd (all none null) (by simp)
    · intro free x member
      cases x with
      | none => exact absurd member free
      | some v => rfl
  obtain ⟨out, ran, even, kept⟩ := returns_whole_rows cudf aligned
  constructor
  · rintro ⟨out', ran', eliminates, -⟩
    rw [ran] at ran'
    cases ran'
    have all : ∀ row ∈ rowsOf keys, whole row = true := by
      intro row member
      have there := (eliminates.same row).mpr member
      exact List.of_mem_filter (kept.mem_iff.mp there)
    rw [List.filter_eq_self.mpr all] at kept
    constructor
    · exact kept.nodup_iff.mp eliminates.once
    · exact fun row member => (noNull row).mp (all row member)
  · rintro ⟨once, free⟩
    have all : ∀ row ∈ rowsOf keys, whole row = true :=
      fun row member => (noNull row).mpr (free row member)
    rw [List.filter_eq_self.mpr all] at kept
    have allOut : ∀ row ∈ rowsOf out, whole row = true :=
      fun row member => all row (kept.mem_iff.mp member)
    obtain ⟨again, ranAgain, -, keptAgain⟩ := returns_whole_rows cudf even
    rw [List.filter_eq_self.mpr allOut] at keptAgain
    refine ⟨out, ran, ?_, again, ranAgain, keptAgain⟩
    constructor
    · exact even
    · exact kept.nodup_iff.mpr once
    · exact fun row => kept.mem_iff

/-- Beside a column without data rows are lost, or the helper raises. -/
theorem not_correct (passed : Passed keys count) (uneven : ¬ Aligned keys count) :
    ¬ Correct getGroups keys count ∧ ∃ row ∈ rowsOver keys count, none ∈ row := by
  obtain ⟨c, member, null, some⟩ : ∃ c ∈ keys, c.data = none ∧ count ≠ 0 := by
    by_contra full
    refine uneven ⟨passed.1, fun c member => ?_⟩
    refine (passed.2 c member).elim id fun null => ?_
    have zero : count = 0 := by_contra fun some => full ⟨c, member, null, some⟩
    rw [KeyColumn.columnLength, KeyColumn.values, null, zero]
    rfl
  let row : Tuple V := keys.map fun c => (c.values[0]?).join
  have here : row ∈ rowsOver keys count :=
    List.mem_map.mpr ⟨0, List.mem_range.mpr (Nat.pos_of_ne_zero some), rfl⟩
  refine ⟨?_, row, here, List.mem_map.mpr ⟨c, member, by rw [KeyColumn.values, null]; rfl⟩⟩
  rintro ⟨out, ran, eliminates, -⟩
  match keys, ran with
  | first :: rest, ran =>
    rw [cudfDuplicateElimination] at ran
    split at ran
    · cases ran
      have there := (eliminates.same row).mpr here
      rw [rowsOf, List.map_cons, List.head?_cons, Option.elim_some, columnLength_emptied] at there
      cases there
    · rw [if_pos (List.any_eq_true.mpr ⟨c, member, by rw [null]; rfl⟩)] at ran
      cases ran

/-- The distinct rows are returned exactly when no row has a NULL or occurs twice. -/
theorem eliminates_iff (cudf : ∀ rows, Grouped rows (getGroups rows))
    (passed : Passed keys count) : Correct getGroups keys count ↔
      (rowsOver keys count).Nodup ∧ ∀ row ∈ rowsOver keys count, none ∉ row := by
  by_cases aligned : Aligned keys count
  · rw [← rowsOf_eq aligned, Correct, ← rowsOf_eq aligned]
    exact eliminates_aligned cudf aligned
  · obtain ⟨wrong, row, member, null⟩ := not_correct passed aligned
    exact iff_of_false wrong fun both => both.2 row member null

end Elimination

section Witness

variable [DecidableEq V]

/-- The rows without NULL, run by run. -/
def groupRows (rows : List (Tuple V)) : Groups V :=
  let kept := rows.filter whole
  let runs := kept.dedup.map fun row => (row, kept.count row - 1)
  ⟨runs.flatMap fun run => List.replicate (run.2 + 1) run.1, starts 0 (runs.map (·.2 + 1))⟩

theorem count_runs {distinct kept : List (Tuple V)} (once : distinct.Nodup) (row : Tuple V) :
    (distinct.flatMap fun run => List.replicate (kept.count run) run).count row =
      if row ∈ distinct then kept.count row else 0 := by
  induction distinct with
  | nil => rfl
  | cons first rest ih =>
      obtain ⟨new, once⟩ := List.nodup_cons.mp once
      rw [List.flatMap_cons, List.count_append, List.count_replicate, ih once]
      by_cases here : first = row
      · subst here
        simp [new]
      · simp [here, Ne.symm here]

theorem groupRows_grouped (rows : List (Tuple V)) : Grouped rows (groupRows rows) := by
  have once := List.nodup_dedup (rows.filter whole)
  have runs : (groupRows rows).keys = (rows.filter whole).dedup.flatMap fun run =>
      List.replicate ((rows.filter whole).count run) run := by
    simp only [groupRows, List.flatMap_map]
    refine List.flatMap_congr fun row member => ?_
    have some := List.count_pos_iff.mpr (List.mem_dedup.mp member)
    rw [Nat.sub_add_cancel some]
  constructor
  · rw [runs, List.perm_iff_count]
    intro row
    rw [count_runs once]
    split
    case isTrue => rfl
    case isFalse absent =>
      rw [List.mem_dedup] at absent
      exact (List.count_eq_zero_of_not_mem absent).symm
  · refine ⟨(rows.filter whole).dedup.map fun row => (row, (rows.filter whole).count row - 1),
      ?_, rfl, rfl⟩
    rw [List.map_map]
    simpa [Function.comp_def] using once

def oneColumn (values : List (Option Nat)) : List (KeyColumn Nat) := [⟨some values, false⟩]

/-- Distinct keys stay what they are, also where a column repeats a value. -/
theorem distinct_keys_eliminated :
    Correct groupRows [⟨some [some 2, some 2, some 1], false⟩,
      ⟨some [some 1, some 3, some 3], false⟩] 3 :=
  (eliminates_iff groupRows_grouped (by decide)).mpr (by decide)

/-- A key that occurs twice is returned twice. -/
theorem equal_keys_returned : ¬ Correct groupRows (oneColumn [some 1, some 1]) 2 := by
  rintro ⟨out, ran, eliminates, -⟩
  have run : cudfDuplicateElimination groupRows (oneColumn [some 1, some 1]) =
      .ok (oneColumn [some 1, some 1]) := by rfl
  rw [run] at ran
  cases ran
  exact absurd eliminates.once (by decide)

end Witness

end DuplicateElimination
