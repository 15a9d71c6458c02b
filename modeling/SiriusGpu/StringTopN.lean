import Mathlib
import SiriusGpu.CudfOrderBy
import SiriusGpu.RunReductions
import SiriusGpu.WeakOrders

/-!
# The custom TopN of strings

`CustomStringTopN`: records with the first four bytes of each string are sorted by these, their
groups are reduced, and of the groups it takes to fill the result the strings are sorted. The
operator that is to give the start of a group is a comparison and not associative: the value of a
group of several records depends on the grouping in which cub applies it. In descending order the
prefixes are sorted in ascending order too.
-/

namespace StringTopN

open GpuMemory (Exception Bytes)
open GpuExpressions (int32Max)
open CudfOrderBy (OrderByType)
open WeakOrders FallibleMaps RunReductions

section Strings

/-- The strings of a column: their bytes, and where each starts and ends. -/
structure StringColumn where
  chars : Bytes
  offsets : List Nat
  filled : offsets ≠ []
  ascending : offsets.Pairwise (· ≤ ·)
  inside : ∀ o ∈ offsets, o ≤ chars.length

def StringColumn.count (c : StringColumn) : Nat := c.offsets.length - 1

def StringColumn.slice (c : StringColumn) (start stop : Nat) : Bytes :=
  (c.chars.take stop).drop start

def StringColumn.string (c : StringColumn) (row : Nat) : Bytes :=
  c.slice (c.offsets.getD row 0) (c.offsets.getD (row + 1) 0)

def StringColumn.strings (c : StringColumn) : List Bytes := (List.range c.count).map c.string

/-- A string is read between two offsets, which must be there. -/
def StringColumn.readString (c : StringColumn) (row : Nat) : Except Exception Bytes :=
  match c.offsets[row]?, c.offsets[row + 1]? with
  | some start, some stop => .ok (c.slice start stop)
  | _, _ => .error .fault

/-- Exclusive sums, as `cub::DeviceScan::ExclusiveSum` gives them. -/
def exclusiveSum : Nat → List Nat → List Nat
  | _, [] => []
  | start, length :: rest => start :: exclusiveSum (start + length) rest

def newOffsets (strings : List Bytes) : List Nat := exclusiveSum 0 (strings.map List.length ++ [0])

theorem exclusiveSum_length (start : Nat) (lengths : List Nat) :
    (exclusiveSum start lengths).length = lengths.length := by
  induction lengths generalizing start with
  | nil => rfl
  | cons length rest ih => rw [exclusiveSum, List.length_cons, List.length_cons, ih]

theorem exclusiveSum_bounds {start o : Nat} {lengths : List Nat}
    (member : o ∈ exclusiveSum start lengths) : start ≤ o ∧ o ≤ start + lengths.sum := by
  induction lengths generalizing start with
  | nil => cases member
  | cons length rest ih =>
      rw [List.sum_cons]
      rcases List.mem_cons.mp member with rfl | later
      · omega
      · have bounds := ih later
        omega

theorem exclusiveSum_ascending (start : Nat) (lengths : List Nat) :
    (exclusiveSum start lengths).Pairwise (· ≤ ·) := by
  induction lengths generalizing start with
  | nil => exact .nil
  | cons length rest ih =>
      refine List.pairwise_cons.mpr ⟨fun o member => ?_, ih (start + length)⟩
      have bounds := exclusiveSum_bounds member
      omega

theorem exclusiveSum_getElem? (start : Nat) (lengths : List Nat) (i : Nat)
    (inside : i < lengths.length) :
    (exclusiveSum start lengths)[i]? = some (start + (lengths.take i).sum) := by
  induction lengths generalizing start i with
  | nil => cases inside
  | cons length rest ih =>
      cases i with
      | zero => rfl
      | succ i =>
          rw [exclusiveSum, List.getElem?_cons_succ, ih (start + length) i (by simpa using inside),
            List.take_succ_cons, List.sum_cons, Nat.add_assoc]

/-- The new strings one after the other. -/
def layOut (strings : List Bytes) : StringColumn where
  chars := strings.flatten
  offsets := newOffsets strings
  filled := by
    rw [newOffsets, ← List.length_pos_iff, exclusiveSum_length, List.length_append]
    exact Nat.succ_pos _
  ascending := exclusiveSum_ascending _ _
  inside o member := by
    have bounds := (exclusiveSum_bounds member).2
    simpa [List.length_flatten] using bounds

end Strings

section Model

/-- `str_top_n_record_type`. -/
structure Record where
  rowId : Nat
  keyPrefix : Nat
  deriving DecidableEq

def prefixStep (x : Nat × Nat) (byte : UInt8) : Nat × Nat :=
  (x.1 ||| byte.toNat <<< x.2, x.2 - 8)

/-- The first four bytes, the first one highest. -/
def keyPrefix (s : Bytes) : Nat := ((s.take 4).foldl prefixStep (0, 24)).1

/-- `create_top_n_records`. -/
def createTopNRecords (key : StringColumn) (numRecords : Nat) : Except Exception (List Record) :=
  (List.range numRecords).mapM fun row => do
    let s ← key.readString row
    .ok ⟨row, keyPrefix s⟩

/-- `CustomTopNStringPrefixLessThan`. -/
def prefixLessThan (lhs rhs : Record) : Bool := lhs.keyPrefix < rhs.keyPrefix

/-- The first byte that differs decides, else the length. -/
def lessChars : Bytes → Bytes → Bool
  | [], right => 0 < right.length
  | _ :: _, [] => false
  | x :: left, y :: right => if x ≠ y then x < y else lessChars left right

/-- `CustomTopNStringLessThan`. -/
def stringLessThan (key : StringColumn) (lhs rhs : Record) : Bool :=
  if lhs.keyPrefix ≠ rhs.keyPrefix then lhs.keyPrefix < rhs.keyPrefix
  else lessChars (key.string lhs.rowId) (key.string rhs.rowId)

/-- `CustomTopNStringGreaterThan` is the same comparison the other way. -/
def stringGreaterThan (key : StringColumn) (lhs rhs : Record) : Bool := stringLessThan key rhs lhs

/-- `cub::DeviceMergeSort::SortKeys` sorts by the comparison it is given, and
`cub::DeviceReduce::ReduceByKey` reduces the values of each run of equal keys in some grouping. -/
structure Cub where
  sortKeys : (Record → Record → Bool) → List Record → List Record
  sorts : Sorts sortKeys
  reduceByKey : (Nat → Nat → Nat) → List (Nat × Nat) → List Nat
  reduces : ∀ op items, Reduces op items (reduceByKey op items)

/-- `CustomTopNMin`. -/
def customTopNMin (a b : Nat) : Nat := if a < b then 1 else 0

/-- `top_groups_calculator` goes on until a group fills the result. -/
def topGroupsCalculator (numResultsNeeded : Nat) : List Nat → Except Exception Nat
  | [] => .error .fault
  | groupStart :: rest =>
    if groupStart < numResultsNeeded then topGroupsCalculator numResultsNeeded rest
    else .ok groupStart

/-- The comparison of the complete sort. -/
def completeLess (key : StringColumn) : OrderByType → Record → Record → Bool
  | .ascending => stringLessThan key
  | .descending => stringGreaterThan key

/-- The first records are sorted, and the others left. -/
def sortFirst (sortKeys : List Record → List Record) (records : List Record) (count : Nat) :
    Except Exception (List Record) :=
  if count ≤ records.length then .ok (sortKeys (records.take count) ++ records.drop count)
  else .error .fault

/-- `materialize_determine_lengths` and `materialize_copy_string`. -/
def materializeStrings (projected : StringColumn) (records : List Record) (numResults : Nat) :
    Except Exception (List Bytes) :=
  if numResults ≤ records.length then
    (records.take numResults).mapM fun record => projected.readString record.rowId
  else .error .fault

/-- The column that replaces the projection. -/
structure Result where
  columnLength : Nat
  column : StringColumn
  numBytes : Nat

/-- `CustomStringTopN`; the number of rows and the number of results are cut to 32 bits on the
way. -/
def customStringTopN (cub : Cub) (key projected : StringColumn) (order : OrderByType)
    (numResults : Nat) : Except Exception Result := do
  let numRecords := key.count % 2 ^ 32
  let records ← createTopNRecords key numRecords
  let records := cub.sortKeys prefixLessThan records
  let groupBoundaries :=
    cub.reduceByKey customTopNMin ((records.map Record.keyPrefix).zip (List.range numRecords))
  let numCompleteSortRecords ← topGroupsCalculator (numResults % 2 ^ 32) groupBoundaries
  let records ← sortFirst (cub.sortKeys (completeLess key order)) records numCompleteSortRecords
  let strings ← materializeStrings projected records numResults
  let column := layOut strings
  .ok ⟨numResults, column, column.offsets.getD numResults 0⟩

end Model

section Meaning

/-- The order of strings. -/
def before : OrderByType → Bytes → Bytes → Bool
  | .ascending => lessChars
  | .descending => fun left right => lessChars right left

/-- The first strings of the sorted column, with their offsets and the number of their bytes. -/
def Right (cub : Cub) (c : StringColumn) (order : OrderByType) (numResults : Nat) : Prop :=
  ∃ out sorted, customStringTopN cub c c order numResults = .ok out ∧
    SortedBy (before order) c.strings sorted ∧ out.column.strings = sorted.take numResults ∧
      out.columnLength = min numResults c.count ∧
        out.numBytes = ((sorted.take numResults).map List.length).sum

/-- The strings with a smaller prefix. -/
def smaller (strings : List Bytes) (s : Bytes) : Nat :=
  strings.countP fun s' => keyPrefix s' < keyPrefix s

/-- The first four bytes are the smallest. -/
def Smallest (strings : List Bytes) (s : Bytes) : Prop :=
  s ∈ strings ∧ ∀ s' ∈ strings, keyPrefix s ≤ keyPrefix s'

/-- The strings with the same prefix. -/
def alike (strings : List Bytes) (s : Bytes) : Nat :=
  strings.countP fun s' => keyPrefix s' = keyPrefix s

/-- A group whose value is not zero in any grouping: the first of two or three records, or a later
one of one or two. -/
def Stops (strings : List Bytes) : Prop :=
  ∃ s ∈ strings, if smaller strings s = 0 then alike strings s = 2 ∨ alike strings s = 3
    else alike strings s ≤ 2

/-- Some group fills the result, so that none is read behind the last one. -/
def Filled (strings : List Bytes) (numResults : Nat) : Prop :=
  if numResults = 1 then Stops strings
  else ∃ s ∈ strings, alike strings s = 1 ∧ numResults ≤ smaller strings s

/-- When the result does not depend on how equal prefixes are sorted and groups are reduced. -/
def Settled (strings : List Bytes) (order : OrderByType) (numResults : Nat) : Prop :=
  match order with
  | .ascending => Filled strings numResults ∧
      (numResults = 1 → ∀ s s', Smallest strings s → Smallest strings s' → s = s')
  | .descending => numResults = 1 ∧ (strings.length = 2 ∨ strings.length = 3) ∧
      ∀ s ∈ strings, ∀ s' ∈ strings, s = s'

end Meaning

section Layout

variable {strings : List Bytes}

theorem newOffsets_getElem? {i : Nat} (inside : i ≤ strings.length) :
    (newOffsets strings)[i]? = some ((strings.map List.length).take i).sum := by
  unfold newOffsets
  rw [exclusiveSum_getElem? _ _ _ (by simp; omega), Nat.zero_add,
    List.take_append_of_le_length (by simpa using inside)]

theorem layOut_count (strings : List Bytes) : (layOut strings).count = strings.length := by
  have length : (newOffsets strings).length = strings.length + 1 := by
    rw [newOffsets, exclusiveSum_length, List.length_append, List.length_map, List.length_singleton]
  rw [StringColumn.count, layOut, length, Nat.add_sub_cancel]

theorem layOut_strings (strings : List Bytes) : (layOut strings).strings = strings := by
  rw [StringColumn.strings, layOut_count]
  refine List.ext_getElem (by simp) fun row _ inside => ?_
  have start := newOffsets_getElem? (Nat.le_of_lt inside)
  have stop : (newOffsets strings)[row + 1]? = _ := newOffsets_getElem? inside
  rw [List.getElem_map, List.getElem_range, StringColumn.string, StringColumn.slice]
  simp only [layOut, List.getD_eq_getElem?_getD, start, stop, Option.getD_some]
  exact List.drop_take_succ_flatten_eq_getElem strings row inside

end Layout

section Prefixes

/-- The number of the first bytes, filled up with zeros. -/
def value : Nat → Bytes → Nat
  | 0, _ => 0
  | _ + 1, [] => 0
  | k + 1, x :: s => x.toNat * 256 ^ k + value k s

theorem value_lt (k : Nat) (s : Bytes) : value k s < 256 ^ k := by
  induction k generalizing s with
  | zero => exact Nat.one_pos
  | succ k ih =>
      cases s with
      | nil => exact Nat.pow_pos (by omega)
      | cons x s =>
          have byte := x.toNat_lt
          have rest := ih s
          calc x.toNat * 256 ^ k + value k s < (x.toNat + 1) * 256 ^ k := by
                rw [Nat.add_mul, Nat.one_mul]
                omega
            _ ≤ 256 * 256 ^ k := Nat.mul_le_mul_right _ (by omega)
            _ = 256 ^ (k + 1) := (Nat.pow_succ').symm

/-- The bits of a byte are put where the number has zeros. -/
theorem prefixStep_eq (k q : Nat) (byte : UInt8) :
    prefixStep (256 ^ (k + 1) * q, 8 * k) byte =
      (256 ^ k * (256 * q + byte.toNat), 8 * (k - 1)) := by
  have shifted : byte.toNat <<< (8 * k) < 2 ^ (8 * (k + 1)) := by
    rw [Nat.shiftLeft_eq, Nat.mul_add, Nat.pow_add, Nat.mul_comm]
    exact Nat.mul_lt_mul_of_pos_left byte.toNat_lt (Nat.two_pow_pos _)
  have base (k : Nat) : 256 ^ k = 2 ^ (8 * k) := by rw [Nat.pow_mul]
  rw [prefixStep]
  refine Prod.ext ?_ ?_
  · simp only
    rw [base (k + 1), ← Nat.two_pow_add_eq_or_of_lt shifted, ← base, Nat.shiftLeft_eq, ← base,
      Nat.pow_succ]
    ring
  · simp only
    omega

theorem fold_prefixStep (k q : Nat) (s : Bytes) :
    ((s.take k).foldl prefixStep (256 ^ k * q, 8 * (k - 1))).1 = 256 ^ k * q + value k s := by
  induction k generalizing q s with
  | zero => rw [List.take_zero, List.foldl_nil, value, Nat.add_zero]
  | succ k ih =>
      cases s with
      | nil => rfl
      | cons x s =>
          rw [List.take_succ_cons, List.foldl_cons, Nat.add_sub_cancel, prefixStep_eq, ih, value]
          ring

theorem keyPrefix_eq (s : Bytes) : keyPrefix s = value 4 s := by
  have fold := fold_prefixStep 4 0 s
  rwa [Nat.mul_zero, Nat.zero_add] at fold

theorem less_of_value {k : Nat} {s s' : Bytes} (less : value k s < value k s') :
    lessChars s s' = true := by
  induction k generalizing s s' with
  | zero => cases less
  | succ k ih =>
      cases s with
      | nil =>
          cases s' with
          | nil => cases less
          | cons y s' => rfl
      | cons x s =>
          cases s' with
          | nil => cases less
          | cons y s' =>
              rw [value, value] at less
              rw [lessChars]
              by_cases same : x = y
              · subst same
                rw [if_neg (not_not_intro rfl)]
                exact ih (by omega)
              · rw [if_pos same, decide_eq_true_eq, UInt8.lt_iff_toNat_lt]
                by_contra not
                have more : y.toNat + 1 ≤ x.toNat := by
                  have differ : x.toNat ≠ y.toNat := fun equal => same (UInt8.toNat_inj.mp equal)
                  omega
                have most := value_lt k s'
                have scaled := Nat.mul_le_mul_right (256 ^ k) more
                rw [Nat.add_mul, Nat.one_mul] at scaled
                omega

theorem less_of_prefixes {s s' : Bytes} (less : keyPrefix s < keyPrefix s') :
    lessChars s s' = true := by
  rw [keyPrefix_eq, keyPrefix_eq] at less
  exact less_of_value less

theorem lessChars_asymm {s s' : Bytes} (less : lessChars s s' = true) :
    lessChars s' s = false := by
  induction s generalizing s' with
  | nil =>
      cases s' with
      | nil => cases less
      | cons y s' => rfl
  | cons x s ih =>
      cases s' with
      | nil => cases less
      | cons y s' =>
          rw [lessChars] at less ⊢
          by_cases same : x = y
          · subst same
            rw [if_neg (not_not_intro rfl)] at less ⊢
            exact ih less
          · rw [if_pos same, decide_eq_true_eq] at less
            rw [if_pos (Ne.symm same), decide_eq_false_iff_not]
            exact UInt8.lt_asymm less

theorem lessChars_antisymm {s s' : Bytes} (after : lessChars s s' = false)
    (after' : lessChars s' s = false) : s = s' := by
  induction s generalizing s' with
  | nil =>
      cases s' with
      | nil => rfl
      | cons y s' => cases after
  | cons x s ih =>
      cases s' with
      | nil => cases after'
      | cons y s' =>
          rw [lessChars] at after after'
          by_cases same : x = y
          · subst same
            rw [if_neg (not_not_intro rfl)] at after after'
            rw [ih after after']
          · rw [if_pos same, decide_eq_false_iff_not] at after
            rw [if_pos (Ne.symm same), decide_eq_false_iff_not] at after'
            exact absurd (UInt8.le_antisymm (UInt8.not_lt.mp after') (UInt8.not_lt.mp after)) same

theorem lessChars_trans {s s' s'' : Bytes} (after : lessChars s' s = false)
    (after' : lessChars s'' s' = false) : lessChars s'' s = false := by
  induction s generalizing s' s'' with
  | nil => cases s'' <;> rfl
  | cons x s ih =>
      cases s' with
      | nil => cases after
      | cons y s' =>
          cases s'' with
          | nil => cases after'
          | cons z s'' =>
              rw [lessChars] at after after' ⊢
              have least : x ≤ y := by
                by_cases same : y = x
                · exact UInt8.le_of_eq same.symm
                · rw [if_pos same, decide_eq_false_iff_not] at after
                  exact UInt8.not_lt.mp after
              have least' : y ≤ z := by
                by_cases same : z = y
                · exact UInt8.le_of_eq same.symm
                · rw [if_pos same, decide_eq_false_iff_not] at after'
                  exact UInt8.not_lt.mp after'
              by_cases same : z = x
              · subst same
                have equal : y = z := UInt8.le_antisymm least' least
                subst equal
                rw [if_neg (not_not_intro rfl)] at after after' ⊢
                exact ih after after'
              · rw [if_pos same, decide_eq_false_iff_not]
                exact UInt8.not_lt.mpr (UInt8.le_trans least least')

theorem lessChars_weak : StrictWeak lessChars where
  asymm _ _ := lessChars_asymm
  trans _ _ _ := lessChars_trans

/-- A string that is not after another has no greater prefix. -/
theorem prefix_le {s s' : Bytes} (after : lessChars s' s = false) :
    keyPrefix s ≤ keyPrefix s' := by
  by_contra greater
  rw [less_of_prefixes (Nat.not_le.mp greater)] at after
  cases after

theorem before_weak (order : OrderByType) : StrictWeak (before order) := by
  cases order with
  | ascending => exact lessChars_weak
  | descending => exact lessChars_weak.swap

theorem before_antisymm {order : OrderByType} {s s' : Bytes} (after : before order s s' = false)
    (after' : before order s' s = false) : s = s' := by
  cases order with
  | ascending => exact lessChars_antisymm after after'
  | descending => exact lessChars_antisymm after' after

end Prefixes

section Groups

variable {l groups : List Nat} {v needed c : Nat}

theorem customTopNMin_less {a b : Nat} (less : a < b) : customTopNMin a b = 1 := if_pos less

/-- Several values are reduced to a comparison. -/
theorem reduced_le_one (reduced : Reduced customTopNMin l v) (several : 2 ≤ l.length) : v ≤ 1 := by
  rcases reduced.cases with rfl | ⟨front, back, x, y, -, -, -, rfl⟩
  · exact absurd several (by simp)
  · rw [customTopNMin]
    split <;> omega

theorem reduced_two {s : Nat} (reduced : Reduced customTopNMin [s, s + 1] v) : v = 1 := by
  rcases reduced.cases with single | ⟨front, back, x, y, split, first, second, rfl⟩
  · cases single
  · match front, back, split with
    | [], _, _ => exact absurd rfl first.ne_nil
    | [_], [_], rfl =>
        rw [reduced_singleton.mp first, reduced_singleton.mp second]
        exact customTopNMin_less (Nat.lt_succ_self s)
    | [_, _], [], _ => exact absurd rfl second.ne_nil

theorem reduced_three (reduced : Reduced customTopNMin [0, 1, 2] v) : v = 1 := by
  rcases reduced.cases with single | ⟨front, back, x, y, split, first, second, rfl⟩
  · cases single
  · match front, back, split with
    | [], _, _ => exact absurd rfl first.ne_nil
    | [_], [_, _], rfl =>
        rw [reduced_singleton.mp first, reduced_two second]
        rfl
    | [_, _], [_], rfl =>
        rw [reduced_two first, reduced_singleton.mp second]
        rfl
    | [_, _, _], [], _ => exact absurd rfl second.ne_nil

/-- The value of the grouping from the left. -/
def foldFirst (op : Nat → Nat → Nat) : List Nat → Nat
  | [] => 0
  | v :: rest => rest.foldl op v

theorem foldFirst_reduced (op : Nat → Nat → Nat) (l : List Nat) (some : l ≠ []) :
    Reduced op l (foldFirst op l) := by
  cases l with
  | nil => exact absurd rfl some
  | cons v rest => exact reduced_foldl v rest

theorem foldFirst_positions (s more : Nat) :
    foldFirst customTopNMin (List.range' s (more + 1)) = if more = 0 then s else 1 := by
  have one (start n : Nat) (two : 2 ≤ start) :
      (List.range' start n).foldl customTopNMin 1 = 1 := by
    induction n generalizing start with
    | zero => rfl
    | succ n ih =>
        rw [List.range'_succ, List.foldl_cons, customTopNMin_less (by omega)]
        exact ih _ (by omega)
  cases more with
  | zero => rfl
  | succ more =>
      rw [List.range'_succ, List.range'_succ, foldFirst, List.foldl_cons,
        customTopNMin_less (Nat.lt_succ_self s), one _ _ (by omega), if_neg (Nat.succ_ne_zero _)]

/-- Longer groups may be reduced to zero. -/
theorem reduced_zero {s more : Nat} (long : if s = 0 then 3 ≤ more ∨ more = 0 else 2 ≤ more) :
    Reduced customTopNMin (List.range' s (more + 1)) 0 := by
  have rest (start n : Nat) : Reduced customTopNMin (List.range' start (n + 2)) 1 := by
    have folded := foldFirst_reduced customTopNMin (List.range' start (n + 2)) (by simp)
    rwa [foldFirst_positions, if_neg (Nat.succ_ne_zero n)] at folded
  by_cases first : s = 0
  · subst first
    rw [if_pos rfl] at long
    rcases long with long | rfl
    · obtain ⟨n, rfl⟩ : ∃ n, more = n + 3 := ⟨more - 3, by omega⟩
      have joined := (rest 0 0).join (rest 2 n)
      rwa [List.range'_append_1, Nat.add_comm 2, show n + 2 + 2 = n + 3 + 1 from rfl] at joined
    · exact .single 0
  · rw [if_neg first] at long
    obtain ⟨n, rfl⟩ : ∃ n, more = n + 2 := ⟨more - 2, by omega⟩
    have alone : Reduced customTopNMin [s] s := .single s
    have joined := alone.join (rest (s + 1) n)
    have after : customTopNMin s 1 = 0 := if_neg (by omega)
    rwa [after] at joined

open Classical in
/-- A grouping that gives zero, if there is one. -/
noncomputable def lowest (op : Nat → Nat → Nat) (l : List Nat) : Nat :=
  if Reduced op l 0 then 0 else foldFirst op l

theorem lowest_reduced (op : Nat → Nat → Nat) (l : List Nat) (some : l ≠ []) :
    Reduced op l (lowest op l) := by
  rw [lowest]
  split
  case isTrue zero => exact zero
  case isFalse => exact foldFirst_reduced op l some

/-- A cub that reduces from the left. -/
def Cub.fromLeft (sortKeys : (Record → Record → Bool) → List Record → List Record)
    (sorts : Sorts sortKeys) : Cub where
  sortKeys := sortKeys
  sorts := sorts
  reduceByKey op items := (runs items).map (foldFirst op)
  reduces op items := reduces_map (foldFirst_reduced op) items

/-- A cub that reduces to zero where it can. -/
noncomputable def Cub.toZero (sortKeys : (Record → Record → Bool) → List Record → List Record)
    (sorts : Sorts sortKeys) : Cub where
  sortKeys := sortKeys
  sorts := sorts
  reduceByKey op items := (runs items).map (lowest op)
  reduces op items := reduces_map (lowest_reduced op) items

theorem topGroups_inv (run : topGroupsCalculator needed groups = .ok c) :
    c ∈ groups ∧ needed ≤ c := by
  induction groups with
  | nil => cases run
  | cons groupStart rest ih =>
      rw [topGroupsCalculator] at run
      split at run
      case isTrue =>
        obtain ⟨member, enough⟩ := ih run
        exact ⟨List.mem_cons_of_mem _ member, enough⟩
      case isFalse enough =>
        cases run
        exact ⟨List.mem_cons_self, Nat.not_lt.mp enough⟩

theorem topGroups_ok (member : v ∈ groups) (enough : needed ≤ v) :
    ∃ c, topGroupsCalculator needed groups = .ok c := by
  induction groups with
  | nil => cases member
  | cons groupStart rest ih =>
      rw [topGroupsCalculator]
      split
      case isTrue less =>
        rcases List.mem_cons.mp member with rfl | later
        · omega
        · exact ih later
      case isFalse => exact ⟨groupStart, rfl⟩

end Groups

section Records

variable {c : StringColumn} {records l l' : List Record} {order : OrderByType} {row : Nat}

def recordOf (c : StringColumn) (row : Nat) : Record := ⟨row, keyPrefix (c.string row)⟩

/-- The string of a record. -/
def text (c : StringColumn) (r : Record) : Bytes := c.string r.rowId

def recordsOf (c : StringColumn) : List Record := (List.range c.count).map (recordOf c)

/-- Records that are made of rows of the column. -/
def Made (c : StringColumn) (records : List Record) : Prop :=
  ∀ r ∈ records, r.rowId < c.count ∧ r.keyPrefix = keyPrefix (text c r)

theorem recordsOf_made (c : StringColumn) : Made c (recordsOf c) := by
  intro r member
  obtain ⟨row, inside, rfl⟩ := List.mem_map.mp member
  exact ⟨List.mem_range.mp inside, rfl⟩

theorem recordsOf_length (c : StringColumn) : (recordsOf c).length = c.count := by
  rw [recordsOf, List.length_map, List.length_range]

theorem recordsOf_text (c : StringColumn) : (recordsOf c).map (text c) = c.strings := by
  rw [recordsOf, List.map_map]
  rfl

theorem strings_length (c : StringColumn) : c.strings.length = c.count := by
  rw [← recordsOf_text, List.length_map, recordsOf_length]

theorem readString_inside (inside : row < c.count) : c.readString row = .ok (c.string row) := by
  rw [StringColumn.count] at inside
  rw [StringColumn.readString, List.getElem?_eq_getElem (by omega),
    List.getElem?_eq_getElem (by omega), StringColumn.string]
  simp only [List.getD_eq_getElem?_getD]
  rw [List.getElem?_eq_getElem (by omega), List.getElem?_eq_getElem (by omega)]
  rfl

theorem createTopNRecords_ok : createTopNRecords c c.count = .ok (recordsOf c) := by
  refine mapM_eq_map fun row inside => ?_
  rw [readString_inside (List.mem_range.mp inside)]
  rfl

theorem prefixLessThan_weak : StrictWeak prefixLessThan where
  asymm a b less := by
    rw [prefixLessThan, decide_eq_true_eq] at less
    rw [prefixLessThan, decide_eq_false_iff_not]
    omega
  trans a b d first second := by
    rw [prefixLessThan, decide_eq_false_iff_not] at *
    omega

/-- The prefix decides, else the strings. -/
theorem stringLessThan_weak (c : StringColumn) : StrictWeak (stringLessThan c) where
  asymm a b less := by
    rw [stringLessThan] at less ⊢
    by_cases same : a.keyPrefix = b.keyPrefix
    · rw [if_neg (not_not_intro same)] at less
      rw [if_neg (not_not_intro same.symm)]
      exact lessChars_asymm less
    · rw [if_pos same, decide_eq_true_eq] at less
      rw [if_pos (Ne.symm same), decide_eq_false_iff_not]
      omega
  trans a b d first second := by
    have either (x y : Record) (after : stringLessThan c y x = false) :
        x.keyPrefix < y.keyPrefix ∨ x.keyPrefix = y.keyPrefix ∧
          lessChars (c.string y.rowId) (c.string x.rowId) = false := by
      rw [stringLessThan] at after
      by_cases same : y.keyPrefix = x.keyPrefix
      · rw [if_neg (not_not_intro same)] at after
        exact Or.inr ⟨same.symm, after⟩
      · rw [if_pos same, decide_eq_false_iff_not] at after
        omega
    rw [stringLessThan]
    rcases either a b first with less | ⟨same, after⟩ <;>
      rcases either b d second with less' | ⟨same', after'⟩
    · rw [if_pos (by omega), decide_eq_false_iff_not]
      omega
    · rw [if_pos (by omega), decide_eq_false_iff_not]
      omega
    · rw [if_pos (by omega), decide_eq_false_iff_not]
      omega
    · rw [if_neg (by omega)]
      exact lessChars_trans after after'

theorem completeLess_weak (c : StringColumn) (order : OrderByType) :
    StrictWeak (completeLess c order) := by
  cases order with
  | ascending => exact stringLessThan_weak c
  | descending => exact (stringLessThan_weak c).swap

theorem stringLessThan_text (made : Made c records) {a b : Record} (inside : a ∈ records)
    (inside' : b ∈ records) : stringLessThan c a b = lessChars (text c a) (text c b) := by
  have here := (made a inside).2
  have there := (made b inside').2
  rw [stringLessThan]
  by_cases same : a.keyPrefix = b.keyPrefix
  · rw [if_neg (not_not_intro same)]
    rfl
  · rw [if_pos same]
    by_cases less : a.keyPrefix < b.keyPrefix
    · rw [decide_eq_true less, less_of_prefixes (by rwa [← here, ← there])]
    · rw [decide_eq_false less, lessChars_asymm (less_of_prefixes (by rw [← here, ← there]; omega))]

theorem completeLess_text (made : Made c records) {a b : Record} (inside : a ∈ records)
    (inside' : b ∈ records) :
    completeLess c order a b = before order (text c a) (text c b) := by
  cases order with
  | ascending => exact stringLessThan_text made inside inside'
  | descending => exact stringLessThan_text made inside' inside

/-- A sort of records is a sort of their strings. -/
theorem sorted_text (made : Made c l) (sorted : SortedBy (completeLess c order) l l') :
    SortedBy (before order) (l.map (text c)) (l'.map (text c)) where
  perm := sorted.perm.map _
  ordered := by
    rw [List.pairwise_map]
    refine sorted.ordered.imp_of_mem fun inside inside' after => ?_
    rwa [completeLess_text made (sorted.mem.mp inside') (sorted.mem.mp inside)] at after

end Records

section Runs

variable {cub : Cub} {c : StringColumn} {order : OrderByType} {numResults count : Nat}

/-- The records in the order of their prefixes. -/
def arranged (cub : Cub) (c : StringColumn) : List Record :=
  cub.sortKeys prefixLessThan (recordsOf c)

theorem arranged_sorted (cub : Cub) (c : StringColumn) :
    SortedBy prefixLessThan (recordsOf c) (arranged cub c) :=
  cub.sorts _ prefixLessThan_weak _

theorem arranged_length (cub : Cub) (c : StringColumn) : (arranged cub c).length = c.count := by
  rw [(arranged_sorted cub c).length_eq, recordsOf_length]

theorem arranged_made (cub : Cub) (c : StringColumn) : Made c (arranged cub c) :=
  fun r member => recordsOf_made c r ((arranged_sorted cub c).mem.mp member)

/-- The strings of the records, in some order. -/
theorem arranged_text (cub : Cub) (c : StringColumn) :
    ((arranged cub c).map (text c)).Perm c.strings := by
  rw [← recordsOf_text]
  exact (arranged_sorted cub c).perm.map _

theorem text_mem {r : Record} (member : r ∈ arranged cub c) : text c r ∈ c.strings := by
  rw [← (arranged_text cub c).mem_iff]
  exact List.mem_map_of_mem member

/-- The records after the first ones are sorted completely. -/
def finished (cub : Cub) (c : StringColumn) (order : OrderByType) (count : Nat) : List Record :=
  cub.sortKeys (completeLess c order) ((arranged cub c).take count) ++ (arranged cub c).drop count

theorem finished_perm (cub : Cub) (c : StringColumn) (order : OrderByType) (count : Nat) :
    (finished cub c order count).Perm (arranged cub c) := by
  have first := (cub.sorts _ (completeLess_weak c order) ((arranged cub c).take count)).perm
  have whole := first.append_right ((arranged cub c).drop count)
  rwa [List.take_append_drop] at whole

/-- The prefixes of the records, which are the keys of the groups. -/
def prefixes (cub : Cub) (c : StringColumn) : List Nat := (arranged cub c).map Record.keyPrefix

def groupsOf (cub : Cub) (c : StringColumn) : List Nat :=
  cub.reduceByKey customTopNMin ((prefixes cub c).zip (List.range c.count))

theorem prefixes_length (cub : Cub) (c : StringColumn) : (prefixes cub c).length = c.count := by
  rw [prefixes, List.length_map, arranged_length]

theorem prefixes_sorted (cub : Cub) (c : StringColumn) : (prefixes cub c).Pairwise (· ≤ ·) := by
  rw [prefixes, List.pairwise_map]
  refine (arranged_sorted cub c).ordered.imp fun {a b} after => ?_
  rw [prefixLessThan, decide_eq_false_iff_not] at after
  omega

theorem prefixes_positions (cub : Cub) (c : StringColumn) :
    (prefixes cub c).zip (List.range c.count) = (prefixes cub c).zipIdx := by
  rw [← prefixes_length cub c, List.range_eq_range', ← List.zipIdx_eq_zip_range']

theorem groupsOf_reduces (cub : Cub) (c : StringColumn) :
    Reduces customTopNMin (prefixes cub c).zipIdx (groupsOf cub c) := by
  rw [groupsOf, ← prefixes_positions]
  exact cub.reduces _ _

/-- A run takes the strings of the first records. -/
theorem customStringTopN_ok (short : c.count ≤ int32Max) {out : Result} :
    customStringTopN cub c c order numResults = .ok out ↔
      ∃ count, topGroupsCalculator (numResults % 2 ^ 32) (groupsOf cub c) = .ok count ∧
        count ≤ c.count ∧ numResults ≤ c.count ∧
          out = ⟨numResults, layOut (((finished cub c order count).take numResults).map (text c)),
            (layOut (((finished cub c order count).take numResults).map (text c))).offsets.getD
              numResults 0⟩ := by
  have whole : c.count % 2 ^ 32 = c.count := Nat.mod_eq_of_lt (by rw [int32Max] at short; omega)
  have length (count : Nat) : (finished cub c order count).length = c.count := by
    rw [(finished_perm cub c order count).length_eq, arranged_length]
  have made (count : Nat) : Made c (finished cub c order count) := fun r member =>
    arranged_made cub c r ((finished_perm cub c order count).mem_iff.mp member)
  have read (count : Nat) : ((finished cub c order count).take numResults).mapM
      (fun record => c.readString record.rowId) =
        .ok (((finished cub c order count).take numResults).map (text c)) :=
    mapM_eq_map fun r member => readString_inside (made count r (List.mem_of_mem_take member)).1
  have step (count : Nat) : (do
      let records ← sortFirst (cub.sortKeys (completeLess c order)) (arranged cub c) count
      let strings ← materializeStrings c records numResults
      let column := layOut strings
      .ok (⟨numResults, column, column.offsets.getD numResults 0⟩ : Result)) = .ok out ↔
        count ≤ c.count ∧ numResults ≤ c.count ∧
          out = ⟨numResults, layOut (((finished cub c order count).take numResults).map (text c)),
            (layOut (((finished cub c order count).take numResults).map (text c))).offsets.getD
              numResults 0⟩ := by
    rw [sortFirst, arranged_length]
    by_cases inside : count ≤ c.count
    · rw [if_pos inside, bind_ok_iff]
      constructor
      · rintro ⟨records, same, run⟩
        cases same
        obtain ⟨strings, materialized, same⟩ := bind_ok_iff.mp run
        rw [materializeStrings, ← finished, length] at materialized
        split at materialized
        case isTrue few =>
          rw [read] at materialized
          cases materialized
          cases same
          exact ⟨inside, few, rfl⟩
        case isFalse => cases materialized
      · rintro ⟨-, few, rfl⟩
        refine ⟨finished cub c order count, rfl, bind_ok_iff.mpr ⟨_, ?_, rfl⟩⟩
        rw [materializeStrings, length, if_pos few, read]
    · rw [if_neg inside]
      exact iff_of_false nofun fun both => inside both.1
  rw [customStringTopN, whole, createTopNRecords_ok]
  refine bind_ok_iff.trans ?_
  constructor
  · rintro ⟨records, same, run⟩
    cases same
    obtain ⟨count, top, run⟩ := bind_ok_iff.mp run
    exact ⟨count, top, (step count).mp run⟩
  · rintro ⟨count, top, done⟩
    exact ⟨recordsOf c, rfl, bind_ok_iff.mpr ⟨count, top, (step count).mpr done⟩⟩

/-- A result is right if its strings are the first of the sorted ones. -/
theorem right_iff (short : c.count ≤ int32Max) : Right cub c order numResults ↔
    numResults ≤ c.count ∧ ∃ count sorted,
      topGroupsCalculator (numResults % 2 ^ 32) (groupsOf cub c) = .ok count ∧
        count ≤ c.count ∧ SortedBy (before order) c.strings sorted ∧
          ((finished cub c order count).take numResults).map (text c) =
            sorted.take numResults := by
  have length (count : Nat) : (finished cub c order count).length = c.count := by
    rw [(finished_perm cub c order count).length_eq, arranged_length]
  constructor
  · rintro ⟨out, sorted, run, arranges, strings, -⟩
    obtain ⟨count, top, inside, few, rfl⟩ := (customStringTopN_ok short).mp run
    rw [layOut_strings] at strings
    exact ⟨few, count, sorted, top, inside, arranges, strings⟩
  · rintro ⟨few, count, sorted, top, inside, arranges, strings⟩
    refine ⟨_, sorted, (customStringTopN_ok short).mpr ⟨count, top, inside, few, rfl⟩, arranges,
      ?_, (Nat.min_eq_left few).symm, ?_⟩
    · rw [layOut_strings, strings]
    · have last : (newOffsets (sorted.take numResults))[(sorted.take numResults).length]? = _ :=
        newOffsets_getElem? (Nat.le_refl _)
      have taken : (sorted.take numResults).length = numResults := by
        rw [← strings, List.length_map, List.length_take, length, Nat.min_eq_left few]
      have all : ((sorted.take numResults).map List.length).length ≤ numResults := by
        rw [List.length_map, taken]
      rw [taken, List.take_of_length_le all] at last
      rw [strings]
      simp only [layOut, List.getD_eq_getElem?_getD, last, Option.getD_some]

end Runs

section Positions

variable {cub : Cub} {c : StringColumn} {numResults count key more : Nat} {front back : List Nat}

/-- Where the prefix of a string stands among the sorted ones. -/
theorem position_counts (shape : prefixes cub c = front ++ List.replicate (more + 1) key ++ back)
    (below : ∀ a ∈ front, a < key) (above : ∀ b ∈ back, key < b) {s : Bytes}
    (here : keyPrefix s = key) :
    smaller c.strings s = front.length ∧ alike c.strings s = more + 1 := by
  have count (p : Nat → Bool) : c.strings.countP (fun s' => p (keyPrefix s')) =
      (prefixes cub c).countP p := by
    rw [prefixes, List.countP_map, ← (arranged_text cub c).countP_eq, List.countP_map]
    refine List.countP_congr fun r member => ?_
    rw [Function.comp_apply, Function.comp_apply, ← (arranged_made cub c r member).2]
  rw [smaller, alike, here, count (· < key), count (· = key), shape]
  simp only [List.countP_append, List.countP_replicate]
  constructor
  · rw [List.countP_eq_length.mpr (by simpa using below),
      List.countP_eq_zero.mpr (by simpa using fun b member => Nat.le_of_lt (above b member))]
    simp
  · rw [List.countP_eq_zero.mpr (by simpa using fun a member => Nat.ne_of_lt (below a member)),
      List.countP_eq_zero.mpr (by simpa using fun b member => Nat.ne_of_gt (above b member))]
    simp

theorem prefix_mem (cub : Cub) {s : Bytes} (member : s ∈ c.strings) :
    keyPrefix s ∈ prefixes cub c := by
  rw [← (arranged_text cub c).mem_iff] at member
  obtain ⟨r, inside, rfl⟩ := List.mem_map.mp member
  rw [← (arranged_made cub c r inside).2]
  exact List.mem_map_of_mem inside

theorem mem_prefixes (member : key ∈ prefixes cub c) : ∃ s ∈ c.strings, keyPrefix s = key := by
  obtain ⟨r, inside, rfl⟩ := List.mem_map.mp member
  exact ⟨text c r, text_mem inside, (arranged_made cub c r inside).2.symm⟩

/-- The group of a string is a run of positions. -/
theorem group_of (cub : Cub) {s : Bytes} (member : s ∈ c.strings) :
    ∃ v ∈ groupsOf cub c, Reduced customTopNMin
      (List.range' (smaller c.strings s) (alike c.strings s)) v := by
  obtain ⟨front, more, back, shape, below, above⟩ :=
    sorted_positions (prefixes_sorted cub c) (prefix_mem cub member)
  obtain ⟨less, same⟩ := position_counts shape below above rfl
  refine (groupsOf_reduces cub c).run ((mem_runs (prefixes_sorted cub c)).mpr ?_)
  refine ⟨front, _, more, back, shape, below, above, ?_⟩
  rw [less, same, Nat.zero_add]

theorem mem_groups (member : count ∈ groupsOf cub c) : ∃ front key more back,
    prefixes cub c = front ++ List.replicate (more + 1) key ++ back ∧ (∀ a ∈ front, a < key) ∧
      (∀ b ∈ back, key < b) ∧
        Reduced customTopNMin (List.range' front.length (more + 1)) count := by
  obtain ⟨run, inside, reduced⟩ := (groupsOf_reduces cub c).value member
  obtain ⟨front, key, more, back, shape, below, above, rfl⟩ :=
    (mem_runs (prefixes_sorted cub c)).mp inside
  rw [Nat.zero_add] at reduced
  exact ⟨front, key, more, back, shape, below, above, reduced⟩

/-- What fills the result is the position of a prefix that occurs once, or, for one result, the
value of a longer group. -/
theorem top_cases (some' : 0 < numResults)
    (top : topGroupsCalculator numResults (groupsOf cub c) = .ok count) :
    (∃ front r back, arranged cub c = front ++ r :: back ∧ count = front.length ∧
      numResults ≤ front.length ∧ (∀ a ∈ front, a.keyPrefix < r.keyPrefix) ∧
        ∀ b ∈ back, r.keyPrefix < b.keyPrefix) ∨
    numResults = 1 ∧ count = 1 ∧ 2 ≤ c.count := by
  obtain ⟨member, enough⟩ := topGroups_inv top
  obtain ⟨front, key, more, back, shape, below, above, reduced⟩ := mem_groups member
  cases more with
  | zero =>
      left
      have position : count = front.length := reduced_singleton.mp reduced
      rw [prefixes, List.append_assoc] at shape
      obtain ⟨first, later, split, rfl, rest⟩ := List.map_eq_append_iff.mp shape
      obtain ⟨r, last, rfl, rfl, rfl⟩ := List.map_eq_cons_iff.mp rest
      rw [List.length_map] at position
      refine ⟨first, r, last, split, position, by omega, ?_, ?_⟩
      · exact fun a inside => below _ (List.mem_map_of_mem inside)
      · exact fun b inside => above _ (List.mem_map_of_mem inside)
  | succ more =>
      right
      have small := reduced_le_one reduced (by simp)
      refine ⟨by omega, by omega, ?_⟩
      rw [← prefixes_length cub c, shape, List.length_append, List.length_append,
        List.length_replicate]
      omega

/-- A group that is not reduced to zero is enough for one result. -/
theorem top_of_stops (stops : Stops c.strings) (cub : Cub) :
    ∃ count, topGroupsCalculator 1 (groupsOf cub c) = .ok count := by
  obtain ⟨s, member, group⟩ := stops
  obtain ⟨v, inside, reduced⟩ := group_of cub member
  have own : 0 < alike c.strings s := List.countP_pos_iff.mpr ⟨s, member, by simp⟩
  refine topGroups_ok inside ?_
  split at group
  case isTrue first =>
    rw [first] at reduced
    rcases group with two | three
    · rw [two] at reduced
      exact (reduced_two reduced).ge
    · rw [three] at reduced
      exact (reduced_three reduced).ge
  case isFalse later =>
    obtain one | two : alike c.strings s = 1 ∨ alike c.strings s = 2 := by omega
    · rw [one] at reduced
      rw [reduced_singleton.mp reduced]
      exact Nat.pos_of_ne_zero later
    · rw [two] at reduced
      exact (reduced_two reduced).ge

theorem top_of_filled (some' : 0 < numResults) (filled : Filled c.strings numResults) (cub : Cub) :
    ∃ count, topGroupsCalculator numResults (groupsOf cub c) = .ok count := by
  rw [Filled] at filled
  split at filled
  case isTrue one =>
    subst one
    exact top_of_stops filled cub
  case isFalse =>
    obtain ⟨s, member, single, enough⟩ := filled
    obtain ⟨v, inside, reduced⟩ := group_of cub member
    rw [single] at reduced
    rw [reduced_singleton.mp reduced] at inside
    exact topGroups_ok inside enough

/-- Where the other groups are reduced to zero, one that is not is needed. -/
theorem stops_of_top {sortKeys : (Record → Record → Bool) → List Record → List Record}
    {sorts : Sorts sortKeys}
    (top : topGroupsCalculator 1 (groupsOf (.toZero sortKeys sorts) c) = .ok count) :
    Stops c.strings := by
  obtain ⟨member, enough⟩ := topGroups_inv top
  rw [groupsOf, prefixes_positions] at member
  obtain ⟨run, inside, rfl⟩ := List.mem_map.mp member
  obtain ⟨front, key, more, back, shape, below, above, rfl⟩ :=
    (mem_runs (prefixes_sorted _ c)).mp inside
  have not_zero : ¬ Reduced customTopNMin (List.range' (0 + front.length) (more + 1)) 0 := by
    intro zero
    rw [lowest, if_pos zero] at enough
    exact absurd enough (by decide)
  obtain ⟨s, own, rfl⟩ : ∃ s ∈ c.strings, keyPrefix s = key :=
    mem_prefixes (by rw [shape]; simp)
  obtain ⟨less, same⟩ := position_counts shape below above rfl
  refine ⟨s, own, ?_⟩
  rw [less, same]
  rw [Nat.zero_add] at not_zero
  by_contra short
  refine not_zero (reduced_zero ?_)
  split <;> rename_i first <;> simp only [first, if_true, if_false] at short <;> omega

/-- From the left, the first or the second group gives one. -/
theorem top_fromLeft {sortKeys : (Record → Record → Bool) → List Record → List Record}
    {sorts : Sorts sortKeys} (two : 2 ≤ c.count) :
    topGroupsCalculator 1 (groupsOf (.fromLeft sortKeys sorts) c) = .ok 1 := by
  have sorted := prefixes_sorted (.fromLeft sortKeys sorts) c
  have length := prefixes_length (.fromLeft sortKeys sorts) c
  rw [groupsOf, prefixes_positions]
  generalize prefixes (.fromLeft sortKeys sorts) c = keys at sorted length
  change topGroupsCalculator 1 ((runs keys.zipIdx).map (foldFirst customTopNMin)) = .ok 1
  -- a group alone at the start has the value zero
  have start (key more : Nat) (later : List Nat) (after : ∀ b ∈ later, key < b) (place : Nat) :
      runs ((List.replicate (more + 1) key ++ later).zipIdx place) =
        List.range' place (more + 1) :: runs (later.zipIdx (place + (more + 1))) := by
    have split : runs (([] ++ List.replicate (more + 1) key ++ later).zipIdx place) = _ :=
      runs_split (List.forall_mem_nil _) after more place
    rwa [List.nil_append, List.length_nil, Nat.add_zero, Nat.zero_add] at split
  cases keys with
  | nil => simp at length; omega
  | cons key rest =>
      obtain ⟨more, later, shape, after, tail⟩ := sorted_split sorted
      rw [shape, start key more later after, List.map_cons, foldFirst_positions]
      cases more with
      | succ more => rfl
      | zero =>
          cases later with
          | nil =>
              rw [shape] at length
              simp at length
              omega
          | cons key' rest' =>
              obtain ⟨more', later', shape', after', -⟩ := sorted_split tail
              rw [shape', start key' more' later' after', List.map_cons, foldFirst_positions,
                Nat.zero_add, Nat.zero_add, ite_self]
              rfl

end Positions

section Correctness

variable {cub : Cub} {c : StringColumn} {order : OrderByType} {numResults count : Nat}
  {front back : List Record} {r : Record}

/-- The result is filled before the last row. -/
theorem customStringTopN_less (short : c.count ≤ int32Max) (some' : 0 < numResults) {out : Result}
    (run : customStringTopN cub c c order numResults = .ok out) :
    numResults < c.count ∧ out.column.strings.length = numResults := by
  obtain ⟨count, top, -, few, rfl⟩ := (customStringTopN_ok short).mp run
  have whole : numResults % 2 ^ 32 = numResults :=
    Nat.mod_eq_of_lt (by rw [int32Max] at short; omega)
  rw [whole] at top
  constructor
  · rcases top_cases some' top with ⟨front, r, back, split, -, enough, -⟩ | ⟨rfl, -, two⟩
    · rw [← arranged_length cub c, split, List.length_append, List.length_cons]
      omega
    · exact two
  · rw [layOut_strings, List.length_map, List.length_take,
      (finished_perm cub c order count).length_eq,
      arranged_length, Nat.min_eq_left few]

/-- A result that some group fills is returned. -/
theorem customStringTopN_returns (short : c.count ≤ int32Max) (some' : 0 < numResults)
    (filled : Filled c.strings numResults) (cub : Cub) (order : OrderByType) :
    ∃ out, customStringTopN cub c c order numResults = .ok out := by
  obtain ⟨count, top⟩ := top_of_filled some' filled cub
  have few : count ≤ c.count ∧ numResults ≤ c.count := by
    rcases top_cases some' top with ⟨front, r, back, split, rfl, enough, -⟩ | ⟨rfl, rfl, two⟩
    · rw [← arranged_length cub c, split, List.length_append]
      omega
    · omega
  have whole : numResults % 2 ^ 32 = numResults :=
    Nat.mod_eq_of_lt (by rw [int32Max] at short; omega)
  exact ⟨_, (customStringTopN_ok short).mpr ⟨count, by rwa [whole], few.1, few.2, rfl⟩⟩

theorem finished_split (split : arranged cub c = front ++ r :: back) :
    finished cub c order front.length =
      cub.sortKeys (completeLess c order) front ++ r :: back := by
  rw [finished, split, List.take_left, List.drop_left]

/-- The groups before one of a single record hold the first strings. -/
theorem ascending_right (short : c.count ≤ int32Max)
    (top : topGroupsCalculator numResults (groupsOf cub c) = .ok front.length)
    (split : arranged cub c = front ++ r :: back) (enough : numResults ≤ front.length)
    (less : ∀ a ∈ front, a.keyPrefix < r.keyPrefix)
    (more : ∀ b ∈ back, r.keyPrefix < b.keyPrefix) : Right cub c .ascending numResults := by
  have made := arranged_made cub c
  rw [split] at made
  have first := cub.sorts _ (completeLess_weak c .ascending) front
  have firstText := sorted_text (fun a member => made a (List.mem_append_left _ member)) first
  have lastText := insertion_sorts _ (before_weak .ascending) ((r :: back).map (text c))
  have between : ∀ s ∈ front.map (text c), ∀ s' ∈ (r :: back).map (text c),
      before .ascending s' s = false := by
    intro s member s' member'
    obtain ⟨a, inside, rfl⟩ := List.mem_map.mp member
    obtain ⟨b, inside', rfl⟩ := List.mem_map.mp member'
    refine lessChars_asymm (less_of_prefixes ?_)
    rw [← (made a (List.mem_append_left _ inside)).2,
      ← (made b (List.mem_append_right _ inside')).2]
    rcases List.mem_cons.mp inside' with rfl | later
    · exact less a inside
    · exact (less a inside).trans (more b later)
  have sorted := firstText.append lastText between
  rw [← List.map_append, ← split] at sorted
  have length : front.length ≤ c.count := by
    rw [← arranged_length cub c, split, List.length_append]
    exact Nat.le_add_right _ _
  have whole : numResults % 2 ^ 32 = numResults :=
    Nat.mod_eq_of_lt (by rw [int32Max] at short; omega)
  refine (right_iff short).mpr ⟨by omega, front.length, _, by rwa [whole], length,
    ⟨sorted.perm.trans (arranged_text cub c), sorted.ordered⟩, ?_⟩
  have long : numResults ≤ (cub.sortKeys (completeLess c .ascending) front).length := by
    rw [first.length_eq]
    exact enough
  rw [finished_split split, List.take_append_of_le_length long, List.map_take,
    List.take_append_of_le_length (by rwa [List.length_map])]

/-- In descending order the records that are left out hold the first string. -/
theorem descending_wrong (short : c.count ≤ int32Max) (two : 2 ≤ numResults) :
    ¬ Right cub c .descending numResults := by
  intro right
  obtain ⟨few, count, sorted, top, inside, arranges, strings⟩ := (right_iff short).mp right
  have whole : numResults % 2 ^ 32 = numResults :=
    Nat.mod_eq_of_lt (by rw [int32Max] at short; omega)
  rw [whole] at top
  obtain ⟨front, r, back, split, rfl, enough, less, -⟩ | ⟨rfl, -⟩ := top_cases (by omega) top
  case inr => omega
  have made := arranged_made cub c
  rw [split] at made
  have first := cub.sorts _ (completeLess_weak c .descending) front
  rw [finished_split split, List.take_append_of_le_length (by rw [first.length_eq]; exact enough)]
    at strings
  cases sorted with
  | nil =>
      have none := congrArg List.length strings
      rw [List.length_map, List.length_take, first.length_eq] at none
      simp only [List.take_nil, List.length_nil] at none
      omega
  | cons s rest =>
      have member : s ∈ (s :: rest).take numResults := by
        cases numResults with
        | zero => omega
        | succ n => exact List.mem_cons_self
      rw [← strings] at member
      obtain ⟨a, inside, rfl⟩ := List.mem_map.mp member
      have inside' := first.mem.mp (List.mem_of_mem_take inside)
      have here : text c r ∈ c.strings := text_mem (by rw [split]; simp)
      have least : before .descending (text c r) (text c a) = false :=
        arranges.head_least (before_weak .descending) here
      have after : lessChars (text c a) (text c r) = false := least
      have lower := less a inside'
      rw [(made a (List.mem_append_left _ inside')).2,
        (made r (List.mem_append_right _ List.mem_cons_self)).2] at lower
      rw [less_of_prefixes lower] at after
      cases after

/-- One result of a longer group is the first record of the prefix sort. -/
theorem right_first (short : c.count ≤ int32Max) (two : 2 ≤ c.count)
    (top : topGroupsCalculator 1 (groupsOf cub c) = .ok 1) : Right cub c order 1 ↔
      ∀ r ∈ (arranged cub c).head?, ∀ s ∈ c.strings, before order s (text c r) = false := by
  have top' : topGroupsCalculator (1 % 2 ^ 32) (groupsOf cub c) = .ok 1 := top
  rw [right_iff short, top']
  obtain ⟨r, rest, start⟩ : ∃ r rest, arranged cub c = r :: rest := by
    refine List.exists_cons_of_ne_nil fun none => ?_
    have length := arranged_length cub c
    rw [none, List.length_nil] at length
    omega
  have single : cub.sortKeys (completeLess c order) [r] = [r] :=
    List.perm_singleton.mp (cub.sorts _ (completeLess_weak c order) [r]).perm
  have first : ((finished cub c order 1).take 1).map (text c) = [text c r] := by
    rw [finished, start, List.take_succ_cons, List.take_zero, single]
    rfl
  have least : (∀ r' ∈ (arranged cub c).head?, ∀ s ∈ c.strings,
      before order s (text c r') = false) ↔ ∀ s ∈ c.strings, before order s (text c r) = false := by
    rw [start]
    simp
  rw [least]
  constructor
  · rintro ⟨-, count, sorted, same, -, arranges, strings⟩
    cases same
    intro s member
    rw [first] at strings
    cases sorted with
    | nil => cases strings
    | cons s' later =>
        cases strings
        exact arranges.head_least (before_weak order) member
  · intro before'
    have sorted := insertion_sorts _ (before_weak order) c.strings
    refine ⟨by omega, 1, _, rfl, by omega, sorted, ?_⟩
    rw [first]
    have here : text c r ∈ c.strings := text_mem (by rw [start]; exact List.mem_cons_self)
    cases arranges : insertion (before order) c.strings with
    | nil =>
        rw [← sorted.mem, arranges] at here
        cases here
    | cons s later =>
        rw [arranges] at sorted
        have head := sorted.head_least (before_weak order) here
        have member := sorted.mem.mp List.mem_cons_self
        rw [before_antisymm (before' s member) head]
        rfl

/-- A sort of the prefixes that has a record first. -/
theorem exists_first {s : Bytes} (smallest : Smallest c.strings s) :
    ∃ (t : Record) (r : Record),
      r ∈ (arranged (.fromLeft (favouring t) (favouring_sorts t)) c).head? ∧ text c r = s := by
  obtain ⟨member, least⟩ := smallest
  rw [← recordsOf_text] at member
  obtain ⟨r, inside, rfl⟩ := List.mem_map.mp member
  refine ⟨r, r, ?_, rfl⟩
  have first : ∀ a ∈ recordsOf c, prefixLessThan a r = false := by
    intro a inside'
    have below := least (text c a) (by rw [← recordsOf_text]; exact List.mem_map_of_mem inside')
    rw [prefixLessThan, (recordsOf_made c a inside').2, (recordsOf_made c r inside).2,
      decide_eq_false_iff_not]
    omega
  obtain ⟨rest, start⟩ := favouring_head inside first
  exact congrArg List.head? start

theorem first_smallest {r : Record} (start : r ∈ (arranged cub c).head?) :
    Smallest c.strings (text c r) := by
  obtain ⟨rest, arranges⟩ := List.head?_eq_some_iff.mp start
  have sorted := arranged_sorted cub c
  rw [arranges] at sorted
  have made := arranged_made cub c
  rw [arranges] at made
  refine ⟨text_mem (List.mem_of_mem_head? start), fun s member => ?_⟩
  · rw [← recordsOf_text] at member
    obtain ⟨a, inside, rfl⟩ := List.mem_map.mp member
    have least := sorted.head_least prefixLessThan_weak inside
    rw [prefixLessThan, decide_eq_false_iff_not] at least
    rw [← (made r List.mem_cons_self).2, ← (recordsOf_made c a inside).2]
    omega

theorem exists_smallest (some' : c.count ≠ 0) : ∃ s, Smallest c.strings s := by
  have length := arranged_length (.fromLeft insertion insertion_sorts) c
  cases start : arranged (.fromLeft insertion insertion_sorts) c with
  | nil =>
      rw [start] at length
      exact absurd length.symm some'
  | cons r rest => exact ⟨text c r, first_smallest (by rw [start]; rfl)⟩

/-- Right for every cub, one result is so with any smallest string as the first. -/
theorem first_least (short : c.count ≤ int32Max) (two : 2 ≤ c.count)
    (right : ∀ cub, Right cub c order 1) {s : Bytes} (smallest : Smallest c.strings s) :
    ∀ s' ∈ c.strings, before order s' s = false := by
  obtain ⟨t, r, start, rfl⟩ := exists_first smallest
  exact (right_first short two (top_fromLeft two)).mp (right _) r start

theorem one_top (short : c.count ≤ int32Max) (right : Right cub c order 1) :
    2 ≤ c.count ∧ ∃ count, topGroupsCalculator 1 (groupsOf cub c) = .ok count := by
  obtain ⟨out, sorted, run, -⟩ := right
  have less := (customStringTopN_less short Nat.one_pos run).1
  obtain ⟨count, top, -⟩ := (customStringTopN_ok short).mp run
  exact ⟨less, count, top⟩

/-- One result, in ascending order. -/
theorem one_ascending (short : c.count ≤ int32Max) :
    (∀ cub, Right cub c .ascending 1) ↔ Settled c.strings .ascending 1 := by
  rw [Settled, Filled, if_pos rfl]
  constructor
  · intro right
    obtain ⟨two, count, top⟩ := one_top short (right (.toZero insertion insertion_sorts))
    refine ⟨stops_of_top top, fun _ s s' smallest smallest' => ?_⟩
    exact before_antisymm (first_least short two right smallest' s smallest.1)
      (first_least short two right smallest s' smallest'.1)
  · rintro ⟨stops, same⟩ cub
    obtain ⟨count, top⟩ := top_of_stops stops cub
    rcases top_cases Nat.one_pos top with ⟨front, r, back, split, rfl, enough, less, more⟩ |
      ⟨-, rfl, two⟩
    · exact ascending_right short top split enough less more
    · refine (right_first short two top).mpr fun r start s member => ?_
      by_contra less
      have less' : lessChars s (text c r) = true := by simpa [before] using less
      have first := first_smallest start
      have below := prefix_le (lessChars_asymm less')
      have smallest : Smallest c.strings s :=
        ⟨member, fun s' inside => below.trans (first.2 s' inside)⟩
      rw [same rfl s _ smallest first, lessChars_weak.irrefl] at less'
      cases less'

/-- One result, in descending order: the first string of the ascending order is the last one too. -/
theorem one_descending (short : c.count ≤ int32Max) :
    (∀ cub, Right cub c .descending 1) ↔ Settled c.strings .descending 1 := by
  have equal_counts (same : ∀ s ∈ c.strings, ∀ s' ∈ c.strings, s = s') {s : Bytes}
      (member : s ∈ c.strings) :
      smaller c.strings s = 0 ∧ alike c.strings s = c.strings.length := by
    constructor
    · refine List.countP_eq_zero.mpr fun s' inside => ?_
      rw [same s' inside s member]
      simp
    · refine List.countP_eq_length.mpr fun s' inside => ?_
      rw [same s' inside s member]
      simp
  constructor
  · intro right
    obtain ⟨two, count, top⟩ := one_top short (right (.toZero insertion insertion_sorts))
    obtain ⟨least, smallest⟩ : ∃ s, Smallest c.strings s := exists_smallest (by omega)
    have all (s : Bytes) (member : s ∈ c.strings) : Smallest c.strings s := by
      refine ⟨member, fun s' inside => ?_⟩
      exact (prefix_le (first_least short two right smallest s member)).trans (smallest.2 s' inside)
    have same : ∀ s ∈ c.strings, ∀ s' ∈ c.strings, s = s' := by
      intro s member s' member'
      exact before_antisymm (first_least short two right (all s' member') s member)
        (first_least short two right (all s member) s' member')
    obtain ⟨s, member, group⟩ := stops_of_top top
    obtain ⟨none, whole⟩ := equal_counts same member
    rw [if_pos none, whole] at group
    exact ⟨rfl, group, same⟩
  · rintro ⟨-, few, same⟩ cub
    have length := strings_length c
    have two : 2 ≤ c.count := by omega
    obtain ⟨s, member⟩ := List.exists_mem_of_length_pos (l := c.strings) (by omega)
    obtain ⟨none, whole⟩ := equal_counts same member
    obtain ⟨count, top⟩ := top_of_stops ⟨s, member, by rwa [if_pos none, whole]⟩ cub
    have one : topGroupsCalculator 1 (groupsOf cub c) = .ok 1 := by
      rcases top_cases Nat.one_pos top with ⟨front, r, back, split, rfl, enough, less, -⟩ |
        ⟨-, rfl, -⟩
      · obtain ⟨a, inside⟩ := List.exists_mem_of_length_pos enough
        have early : a ∈ arranged cub c := by rw [split]; exact List.mem_append_left _ inside
        have late : r ∈ arranged cub c := by rw [split]; simp
        have lower := less a inside
        rw [(arranged_made cub c a early).2, (arranged_made cub c r late).2,
          same _ (text_mem early) _ (text_mem late)] at lower
        exact absurd lower (Nat.lt_irrefl _)
      · exact top
    refine (right_first short two one).mpr fun r start s member => ?_
    rw [same s member (text c r) (first_smallest start).1]
    exact (before_weak .descending).irrefl _

/-- More than one result: which group fills it depends neither on the sort nor on the grouping. -/
theorem several_ascending (short : c.count ≤ int32Max) (two : 2 ≤ numResults) :
    Right cub c .ascending numResults ↔ Settled c.strings .ascending numResults := by
  have several : numResults ≠ 1 := by omega
  rw [Settled, Filled, if_neg several]
  constructor
  · intro right
    obtain ⟨few, count, sorted, top, -⟩ := (right_iff short).mp right
    have whole : numResults % 2 ^ 32 = numResults :=
      Nat.mod_eq_of_lt (by rw [int32Max] at short; omega)
    rw [whole] at top
    obtain ⟨front, r, back, split, rfl, enough, less, more⟩ | ⟨rfl, -⟩ := top_cases (by omega) top
    case inr => omega
    have shape : prefixes cub c = front.map Record.keyPrefix ++
        List.replicate (0 + 1) r.keyPrefix ++ back.map Record.keyPrefix := by
      rw [prefixes, split]
      simp
    obtain ⟨s, member, here⟩ : ∃ s ∈ c.strings, keyPrefix s = r.keyPrefix :=
      mem_prefixes (by rw [shape]; simp)
    obtain ⟨before', own⟩ := position_counts shape (by simpa using less) (by simpa using more) here
    exact ⟨⟨s, member, own, by rwa [before', List.length_map]⟩, fun one => absurd one several⟩
  · rintro ⟨filled, -⟩
    have filled' : Filled c.strings numResults := by rwa [Filled, if_neg several]
    obtain ⟨count, top⟩ := top_of_filled (by omega) filled' cub
    obtain ⟨front, r, back, split, rfl, enough, less, more⟩ | ⟨rfl, -⟩ := top_cases (by omega) top
    case inr => omega
    exact ascending_right short top split enough less more

theorem right_of_settled (short : c.count ≤ int32Max) (some' : 0 < numResults)
    (settled : Settled c.strings order numResults) (cub : Cub) : Right cub c order numResults := by
  by_cases one : numResults = 1
  · subst one
    cases order with
    | ascending => exact (one_ascending short).mpr settled cub
    | descending => exact (one_descending short).mpr settled cub
  · cases order with
    | ascending => exact (several_ascending short (by omega)).mpr settled
    | descending => exact absurd settled.1 one

/-- When the result is right however cub sorts equal prefixes and groups the reduction: in
ascending order one result needs equal strings of the smallest prefix and a group that cannot be
reduced to zero, and more need a prefix that is unique after enough others; in descending order
only one result of two or three equal strings is. -/
theorem topN_iff_settled (short : c.count ≤ int32Max) (some' : 0 < numResults) :
    (∀ cub, Right cub c order numResults) ↔ Settled c.strings order numResults := by
  refine ⟨fun right => ?_, right_of_settled short some'⟩
  by_cases one : numResults = 1
  · subst one
    cases order with
    | ascending => exact (one_ascending short).mp right
    | descending => exact (one_descending short).mp right
  · have two : 2 ≤ numResults := by omega
    have given := right (.fromLeft insertion insertion_sorts)
    cases order with
    | ascending => exact (several_ascending short two).mp given
    | descending => exact absurd given (descending_wrong short two)

end Correctness

section Witness

/-- Four of six strings, two of which have the same first bytes, but not all six. -/
theorem four_of_six :
    (∀ cub, Right cub (layOut [[97, 98, 99, 100, 122], [98], [97, 98, 99, 100, 121], [], [97, 98],
      [99, 97]]) .ascending 4) ∧
    ¬ ∀ cub, Right cub (layOut [[97, 98, 99, 100, 122], [98], [97, 98, 99, 100, 121], [], [97, 98],
      [99, 97]]) .ascending 6 := by
  constructor
  · refine (topN_iff_settled (by decide) (by decide)).mpr ?_
    exact ⟨⟨[98], by decide, by decide, by decide⟩, fun one => absurd one (by decide)⟩
  · intro right
    obtain ⟨⟨s, member, -, before⟩, -⟩ := (topN_iff_settled (by decide) (by decide)).mp right
    revert s
    decide

/-- The greatest of two letters is not the result in descending order. -/
theorem greatest_missed :
    ¬ Right (.fromLeft insertion insertion_sorts) (layOut [[97], [98]]) .descending 1 := by
  intro right
  have least := (right_first (by decide) (by decide) (top_fromLeft (by decide))).mp right
  have after := least ⟨0, keyPrefix [97]⟩ (by decide) [98] (by decide)
  exact absurd after (by decide)

end Witness

end StringTopN
