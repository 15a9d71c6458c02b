import Mathlib
import SiriusGpu.HashJoinProbe
import SiriusGpu.BlockCompaction

/-!
# RIGHT_SEMI and RIGHT_ANTI hash joins

The table of these joins has one column more, which the build leaves empty. Every
probe row writes its row id there, in all slots that match it or, with
`unique_build_keys`, in the first one only. `scan_right` then compacts the row ids of
the marked slots, or those of the occupied slots without a mark. It runs twice: once
to count, once to write.
-/

namespace RightSemiAntiJoin

open HashJoinProbe HashTableBuild OpenAddressing BlockCompaction

def BLOCK_THREADS : Nat := 128

def ITEMS_PER_THREAD : Nat := 4

/-- `join_mode` of the scan. -/
inductive JoinMode where
  | rightSemi
  | rightAnti

inductive Outcome where
  | raised (message : String)
  | aborted
  | rowIds (rows : List (Option Word))

/-- What a run of the kernels leaves open: the order of the steps of the build and the table
it ends with, the slots that every probe row marks and the order of these writes, and the
order of the blocks in both scans and of the writes of the second. -/
structure Execution where
  schedule : List Nat
  table : State Word
  marks : Nat → List Nat
  flagWrites : List (Nat × Nat)
  countOrder : List Nat
  order : List Nat
  writes : List (Word × Nat)

section Operator

variable (assertions unique : Bool) (mode : JoinMode) (join : Join) (execution : Execution)

/-- The columns of a slot after its keys. -/
def Execution.rowId (slot : Nat) : Word := execution.table.cells slot join.numKeys

def Execution.flag (slot : Nat) : Word :=
  ((perform execution.flagWrites slot).map (BitVec.ofNat 64)).getD
    (execution.table.cells slot (join.numKeys + 1))

/-- `selection_flags` of a slot. -/
def Execution.selected (slot : Nat) : Bool :=
  match mode with
  | .rightSemi => execution.flag join slot ≠ EMPTY
  | .rightAnti => execution.flag join slot = EMPTY ∧ execution.rowId join slot ≠ EMPTY

def htLen : Nat := join.buildRows * 2

/-- What the threads of a block select of their slots. -/
def Execution.scanned (block t : Nat) : List Word :=
  (tileSelected BLOCK_THREADS ITEMS_PER_THREAD (htLen join) (execution.selected mode join)
    block t).map (execution.rowId join)

def Execution.count : Nat :=
  (execution.countOrder.map fun block =>
    exclusiveSum (execution.scanned mode join block) BLOCK_THREADS).sum

/-- The joins up to their scan; `assertions` says whether the build keeps its `assert`s. -/
def scan : Outcome :=
  match join.accept with
  | .error message => .raised message
  | .ok _ =>
      if htLen join = 0 then .rowIds []
      else if assertions = true ∧ execution.count mode join = 0 then .aborted
      else .rowIds ((List.range (execution.count mode join)).map (perform execution.writes))

/-- The slots that a probe row marks. -/
def probeWalk (t : Insertion Word) (s : State Word) (matching : Nat → Bool) (fuel slot : Nat) :
    Option (List Nat) :=
  if unique then (walkFirst t (looksEmpty t s) matching fuel slot).map Option.toList
  else walkAll t (looksEmpty t s) matching fuel slot

/-- The walk of a probe row over a table; without a hash its thread returns. -/
def Walked (s : State Word) (width : KeyWidth) (modes : List Nat) (positive : 0 < join.buildRows)
    (p : Nat) (found : List Nat) : Prop :=
  match startSlot (modes.count 0) (join.table width modes positive).htLen
      (join.probeWord width p) with
  | none => found = []
  | some slot => ∃ fuel, probeWalk unique (join.table width modes positive).insertion s
      (fun x => localFound modes (s.cells x) (join.probeWord width p)) fuel slot = some found

/-- The execution is one of the kernels with build rows, and all loops end. -/
structure Execution.Runs (width : KeyWidth) (modes : List Nat) (positive : 0 < join.buildRows) :
    Prop where
  built : (join.table width modes positive).insertion.Run execution.schedule execution.table
  finished : (join.table width modes positive).insertion.Finished execution.table
  probed : ∀ p < join.probeRows,
    Walked unique join execution.table width modes positive p (execution.marks p)
  flags : execution.flagWrites.Perm
    ((List.range join.probeRows).flatMap fun p => (execution.marks p).map fun slot => (p, slot))
  counted : execution.countOrder.Perm
    (List.range (numTiles BLOCK_THREADS ITEMS_PER_THREAD (htLen join)))
  blocks : execution.order.Perm
    (List.range (numTiles BLOCK_THREADS ITEMS_PER_THREAD (htLen join)))
  writes : execution.writes.Perm
    (gridWrites BLOCK_THREADS (execution.scanned mode join) execution.order)

def Execution.Possible : Prop :=
  ∀ width modes (positive : 0 < join.buildRows), join.accept = .ok (width, modes) →
    execution.Runs unique mode join width modes positive

end Operator

/-! ## What the joins should return -/

section Exact

variable (join : Join)

/-- Some probe row satisfies all conditions with the build row. -/
def hasMatch (b : Nat) : Bool :=
  (List.range join.probeRows).any fun p => join.Satisfies p b

/-- Whether a build row belongs into the output. -/
def belongs (mode : JoinMode) (b : Nat) : Bool :=
  match mode with
  | .rightSemi => hasMatch join b
  | .rightAnti => !hasMatch join b

/-- The row ids of some build rows. -/
def rowIdsOf (rows : List Nat) : List (Option Word) := rows.map fun b => some (BitVec.ofNat 64 b)

/-- The build rows that belong into the output, each once, or an exception. -/
def Outcome.Exact (mode : JoinMode) (outcome : Outcome) : Prop :=
  match outcome with
  | .raised _ => True
  | .aborted => False
  | .rowIds rows => rows.Perm (rowIdsOf ((List.range join.buildRows).filter (belongs join mode)))

/-- Every build row is in one of the two outputs, once. -/
def Partition (semi anti : Outcome) : Prop :=
  match semi, anti with
  | .rowIds rows, .rowIds rows' => (rows ++ rows').Perm (rowIdsOf (List.range join.buildRows))
  | .raised _, .raised _ => True
  | _, _ => False

/-- A build row that is not taken for an empty slot fits a probe row by its words. -/
def FitsReal (width : KeyWidth) (p b : Nat) : Prop :=
  join.buildWord width b 0 ≠ EMPTY ∧ join.Fits width p b = true

def FitsSome (width : KeyWidth) (b : Nat) : Prop := ∃ p < join.probeRows, FitsReal join width p b

/-- What a run of a join with build rows has to meet: a hash is defined, no compare-and-swap
takes a slot twice, with `unique_build_keys` every row that fits at all is the only one to fit
some probe row, and the words decide as the keys do. -/
structure Proper (unique : Bool) (execution : Execution) (width : KeyWidth) (modes : List Nat) :
    Prop where
  hash : modes.count 0 ≤ 2
  clean : Exclusive execution.table
  single : unique = true → ∀ b < join.buildRows, FitsSome join width b →
    ∃ p < join.probeRows, FitsReal join width p b ∧
      ∀ b' < join.buildRows, FitsReal join width p b' → b' = b
  reads : ∀ b < join.buildRows, FitsSome join width b ↔ hasMatch join b = true

end Exact

/-! ## What the probes mark -/

section Marks

variable {join : Join} {execution : Execution} {unique : Bool} {mode : JoinMode}
variable {width : KeyWidth} {modes : List Nat} {positive : 0 < join.buildRows}

theorem ofNat_ne_empty {n : Nat} (small : n < 2 ^ 63) : BitVec.ofNat 64 n ≠ EMPTY := by
  intro same
  have values := congrArg BitVec.toNat same
  rw [BitVec.toNat_ofNat, Nat.mod_eq_of_lt (by omega)] at values
  have all : EMPTY.toNat = 2 ^ 64 - 1 := by decide
  omega

/-- The run's table. -/
def Execution.Runs.table (runs : execution.Runs unique mode join width modes positive) :
    Built (join.table width modes positive) :=
  ⟨execution.schedule, execution.table, runs.built, runs.finished⟩

theorem few_of_hash (accepted : join.accept = .ok (width, modes)) (hash : modes.count 0 ≤ 2) :
    modes.count 0 = 1 ∨ modes.count 0 = 2 := by
  have some := count_pos (accept_eq accepted).2
  omega

theorem probing_of_hash (accepted : join.accept = .ok (width, modes)) (hash : modes.count 0 ≤ 2)
    (positive : 0 < join.buildRows) : Probing (join.table width modes positive) modes :=
  ⟨(modes_length (accept_eq accepted).2).symm, rfl,
    hashed_of_modes (accept_eq accepted).2 (few_of_hash accepted hash)⟩

theorem fitsReal_iff (taken : join.modes = some modes) (positive : 0 < join.buildRows) (p b : Nat) :
    FitsReal join width p b ↔ ¬ Marked (join.table width modes positive) b ∧
      localFound modes ((join.table width modes positive).keys b) (join.probeWord width p) =
        true := by
  rw [FitsReal, ← localFound_eq taken, Marked, ne_eq]
  exact Iff.rfl

/-- The slots of a walk, with all matches or the first. -/
theorem probeWalk_cases {build : Build} (built : Built build) (probing : Probing build modes)
    (clean : Exclusive built.state) {words : Nat → Word} {slot fuel : Nat} {found : List Nat}
    (start : startSlot build.equalKeys build.htLen words = some slot)
    (ran : probeWalk unique build.insertion built.state (fitting built modes words) fuel slot =
      some found) :
    (∀ x ∈ found, ∃ b < build.rows, (built.state.thread b).claimed = some x ∧ ¬ Marked build b ∧
      localFound modes (build.keys b) words = true) ∧
    ∀ b < build.rows, ¬ Marked build b → localFound modes (build.keys b) words = true →
      (unique = true → ∀ b' < build.rows, ¬ Marked build b' →
        localFound modes (build.keys b') words = true → b' = b) →
      ∃ x ∈ found, (built.state.thread b).claimed = some x := by
  rw [probeWalk] at ran
  split at ran
  case isTrue single =>
    obtain ⟨first, walked, rfl⟩ := Option.map_eq_some_iff.mp ran
    have hits := walkFirst_isSome built probing (.inr clean) start walked
    have owned (x : Nat) (hit : x ∈ first.toList) : ∃ b < build.rows,
        (built.state.thread b).claimed = some x ∧ ¬ Marked build b ∧
          localFound modes (build.keys b) words = true := by
      rw [Option.mem_toList] at hit
      subst hit
      exact walkFirst_owner built probing (.inr clean) start walked
    refine ⟨owned, fun b inside real fits only => ?_⟩
    obtain ⟨x, rfl⟩ := Option.isSome_iff_exists.mp (hits.mpr ⟨b, inside, real, fits⟩)
    have member : x ∈ (some x).toList := Option.mem_toList.mpr rfl
    obtain ⟨b', inside', placed, real', fits'⟩ := owned x member
    obtain rfl := only single b' inside' real' fits'
    exact ⟨x, member, placed⟩
  case isFalse several =>
    have members := mem_walkAll built probing (.inr clean) start ran
    refine ⟨fun x hit => (members x).mp hit, fun b inside real fits _ => ?_⟩
    obtain ⟨x, placed⟩ := exists_slot built (probing.inserted.symm ▸ inside)
    exact ⟨x, (members x).mpr ⟨b, inside, placed, real, fits⟩, placed⟩

/-- The slots that a probe row marks are those of rows that fit it; a row that alone fits it is
marked in any case. -/
theorem marks_cases (accepted : join.accept = .ok (width, modes))
    (runs : execution.Runs unique mode join width modes positive) (hash : modes.count 0 ≤ 2)
    (clean : Exclusive execution.table) {p : Nat} (inside : p < join.probeRows) :
    (∀ x ∈ execution.marks p, ∃ b < join.buildRows,
      (execution.table.thread b).claimed = some x ∧ FitsReal join width p b) ∧
    ∀ b < join.buildRows, FitsReal join width p b →
      (unique = true → ∀ b' < join.buildRows, FitsReal join width p b' → b' = b) →
      ∃ x ∈ execution.marks p, (execution.table.thread b).claimed = some x := by
  have probed := runs.probed p inside
  rw [Walked] at probed
  obtain ⟨slot, start⟩ := (join.table width modes positive).startSlot_some
    (few_of_hash accepted hash) (join.table width modes positive).htLen (join.probeWord width p)
  rw [show startSlot (modes.count 0) (join.table width modes positive).htLen
    (join.probeWord width p) = some slot from start] at probed
  obtain ⟨fuel, ran⟩ := probed
  have cases := probeWalk_cases runs.table (probing_of_hash accepted hash positive) clean start ran
  simp only [fitsReal_iff (accept_eq accepted).2 positive]
  constructor
  · exact cases.1
  · intro b hb fits only
    exact cases.2 b hb fits.1 fits.2 fun single b' hb' real fits' =>
      only single b' hb' ⟨real, fits'⟩

/-- Which slots some probe row marks. -/
theorem marked_iff (accepted : join.accept = .ok (width, modes))
    (runs : execution.Runs unique mode join width modes positive)
    (proper : Proper join unique execution width modes) (x : Nat) :
    (∃ p < join.probeRows, x ∈ execution.marks p) ↔ ∃ b < join.buildRows,
      (execution.table.thread b).claimed = some x ∧ FitsSome join width b := by
  constructor
  · rintro ⟨p, inside, member⟩
    obtain ⟨b, hb, placed, fits⟩ :=
      (marks_cases accepted runs proper.hash proper.clean inside).1 x member
    exact ⟨b, hb, placed, p, inside, fits⟩
  · rintro ⟨b, hb, placed, fits⟩
    have chosen : ∃ p < join.probeRows, FitsReal join width p b ∧
        (unique = true → ∀ b' < join.buildRows, FitsReal join width p b' → b' = b) := by
      by_cases single : unique = true
      · obtain ⟨p, inside, fitsp, only⟩ := proper.single single b hb fits
        exact ⟨p, inside, fitsp, fun _ => only⟩
      · obtain ⟨p, inside, fitsp⟩ := fits
        exact ⟨p, inside, fitsp, fun h => absurd h single⟩
    obtain ⟨p, inside, fitsp, only⟩ := chosen
    obtain ⟨y, member, placed'⟩ :=
      (marks_cases accepted runs proper.hash proper.clean inside).2 b hb fitsp only
    obtain rfl : x = y := Option.some.inj (placed.symm.trans placed')
    exact ⟨p, inside, member⟩

/-- A slot's flag is set exactly if some probe row marks it. -/
theorem flag_ne_iff (runs : execution.Runs unique mode join width modes positive) (x : Nat) :
    execution.flag join x ≠ EMPTY ↔ ∃ p < join.probeRows, x ∈ execution.marks p := by
  have unwritten : execution.table.cells x (join.numKeys + 1) = EMPTY :=
    run_outside runs.built (Nat.succ_pos _) (Nat.le_refl _)
  have made (p : Nat) : (p, x) ∈ execution.flagWrites ↔
      p < join.probeRows ∧ x ∈ execution.marks p := by
    rw [runs.flags.mem_iff]
    simp
  rw [Execution.flag]
  cases last : perform execution.flagWrites x with
  | none =>
      rw [Option.map_none, Option.getD_none, unwritten]
      constructor
      · intro different
        exact absurd rfl different
      · rintro ⟨p, inside, member⟩
        exact absurd last (perform_ne_none ((made p).mpr ⟨inside, member⟩))
  | some p =>
      have written := (made p).mp (mem_of_perform last)
      rw [Option.map_some, Option.getD_some]
      constructor
      · intro _
        exact ⟨p, written⟩
      · intro _
        exact ofNat_ne_empty (Nat.lt_trans written.1 join.probeRows_lt)

/-! ## What the scan selects -/

theorem lt_of_claimed (accepted : join.accept = .ok (width, modes))
    (runs : execution.Runs unique mode join width modes positive)
    (hash : modes.count 0 ≤ 2) {b x : Nat}
    (placed : (execution.table.thread b).claimed = some x) :
    b < join.buildRows ∧ x < htLen join := by
  have inv := run_inv runs.built
  have inserted : (join.table width modes positive).insertion.rows = join.buildRows :=
    (probing_of_hash accepted hash positive).inserted
  constructor
  · rw [← inserted]
    exact (inv.placed b x placed).1
  · exact (placed_residue inv placed).2

/-- The row id of a taken slot. -/
theorem rowId_eq (runs : execution.Runs unique mode join width modes positive)
    (clean : Exclusive execution.table) {b x : Nat}
    (placed : (execution.table.thread b).claimed = some x) :
    execution.rowId join x = BitVec.ofNat 64 b := by
  have inv := run_inv runs.built
  obtain ⟨slot, done⟩ := runs.finished b (inv.placed b x placed).1
  have written : join.numKeys < progress (join.table width modes positive).insertion
      (execution.table.thread b) := by
    rw [done, progress]
    exact Nat.lt_succ_self _
  rw [Execution.rowId, run_columns runs.built clean placed written]
  exact if_neg (Nat.lt_irrefl _)

/-- A slot with a row id has been taken. -/
theorem claimed_of_rowId (runs : execution.Runs unique mode join width modes positive) {x : Nat}
    (occupied : execution.rowId join x ≠ EMPTY) :
    ∃ b, (execution.table.thread b).claimed = some x := by
  by_contra untaken
  simp only [not_exists] at untaken
  exact occupied (run_untaken runs.built untaken join.numKeys)

/-- The scan selects the slots of the build rows that belong into the output. -/
theorem selected_iff (accepted : join.accept = .ok (width, modes))
    (runs : execution.Runs unique mode join width modes positive)
    (proper : Proper join unique execution width modes) (x : Nat) :
    execution.selected mode join x = true ↔ ∃ b < join.buildRows,
      (execution.table.thread b).claimed = some x ∧ belongs join mode b = true := by
  have flag : execution.flag join x ≠ EMPTY ↔ ∃ b < join.buildRows,
      (execution.table.thread b).claimed = some x ∧ hasMatch join b = true := by
    rw [flag_ne_iff runs, marked_iff accepted runs proper]
    refine exists_congr fun b => and_congr_right fun inside => ?_
    rw [proper.reads b inside]
  cases mode with
  | rightSemi =>
      rw [Execution.selected, decide_eq_true_iff]
      exact flag
  | rightAnti =>
      rw [Execution.selected, decide_eq_true_iff]
      constructor
      · rintro ⟨unflagged, occupied⟩
        obtain ⟨b, placed⟩ := claimed_of_rowId runs occupied
        have inside := (lt_of_claimed accepted runs proper.hash placed).1
        refine ⟨b, inside, placed, ?_⟩
        rw [belongs, Bool.not_eq_true']
        by_contra matched
        rw [Bool.not_eq_false] at matched
        exact flag.mpr ⟨b, inside, placed, matched⟩ unflagged
      · rintro ⟨b, inside, placed, unmatched⟩
        rw [belongs, Bool.not_eq_true'] at unmatched
        constructor
        · by_contra flagged
          obtain ⟨b', inside', placed', matched⟩ := flag.mp flagged
          obtain rfl := proper.clean b b' x placed placed'
          rw [unmatched] at matched
          cases matched
        · rw [rowId_eq runs proper.clean placed]
          exact ofNat_ne_empty (Nat.lt_trans inside join.buildRows_lt)

/-- The slots of some build rows, one for each. -/
theorem slots_perm {s : State Word} (clean : Exclusive s) {rows slots : Nat} {row slot : Nat → Bool}
    (taken : ∀ b < rows, ∃ x < slots, (s.thread b).claimed = some x)
    (chosen : ∀ x < slots, slot x = true ↔
      ∃ b < rows, (s.thread b).claimed = some x ∧ row b = true) :
    ∃ place : Nat → Nat, (∀ b < rows, (s.thread b).claimed = some (place b)) ∧
      ((List.range slots).filter slot).Perm (((List.range rows).filter row).map place) := by
  choose! place inside placed using taken
  refine ⟨place, placed, ?_⟩
  rw [List.perm_ext_iff_of_nodup (List.nodup_range.filter slot)]
  · intro x
    simp only [List.mem_filter, List.mem_range, List.mem_map]
    constructor
    · rintro ⟨hx, selected⟩
      obtain ⟨b, hb, at', belongs⟩ := (chosen x hx).mp selected
      exact ⟨b, ⟨hb, belongs⟩, Option.some.inj ((placed b hb).symm.trans at')⟩
    · rintro ⟨b, ⟨hb, belongs⟩, rfl⟩
      exact ⟨inside b hb, (chosen _ (inside b hb)).mpr ⟨b, hb, placed b hb, belongs⟩⟩
  · refine (List.nodup_range.filter row).map_on fun b hb b' hb' same => ?_
    have hb := List.mem_range.mp (List.mem_of_mem_filter hb)
    have hb' := List.mem_range.mp (List.mem_of_mem_filter hb')
    refine clean b b' (place b) (placed b hb) ?_
    rw [same]
    exact placed b' hb'

/-- The row ids in memory are those of the selected slots. -/
theorem scanned_perm (runs : execution.Runs unique mode join width modes positive) :
    ((List.range (execution.count mode join)).map (perform execution.writes)).Perm
      (((List.range (htLen join)).filter (execution.selected mode join)).map fun x =>
        some (execution.rowId join x)) := by
  have places : 0 < BLOCK_THREADS * ITEMS_PER_THREAD := by decide
  have counts : execution.count mode join = (execution.order.map fun block =>
      exclusiveSum (execution.scanned mode join block) BLOCK_THREADS).sum :=
    ((runs.counted.trans runs.blocks.symm).map _).sum_eq
  rw [counts]
  exact tiles_written places (execution.selected mode join) (execution.rowId join)
    runs.blocks runs.writes

/-- They are those of the rows that belong into the output. -/
theorem written_perm (accepted : join.accept = .ok (width, modes))
    (runs : execution.Runs unique mode join width modes positive)
    (proper : Proper join unique execution width modes) :
    ((List.range (execution.count mode join)).map (perform execution.writes)).Perm
      (rowIdsOf ((List.range join.buildRows).filter (belongs join mode))) := by
  have taken (b : Nat) (inside : b < join.buildRows) :
      ∃ x < htLen join, (execution.table.thread b).claimed = some x := by
    have inserted : (join.table width modes positive).insertedRows = join.buildRows :=
      (probing_of_hash accepted proper.hash positive).inserted
    obtain ⟨x, placed⟩ := exists_slot runs.table (inserted.symm ▸ inside)
    exact ⟨x, (lt_of_claimed accepted runs proper.hash placed).2, placed⟩
  obtain ⟨place, placed, slots⟩ := slots_perm proper.clean taken
    fun x _ => selected_iff accepted runs proper x
  refine (scanned_perm runs).trans ((slots.map _).trans (List.Perm.of_eq ?_))
  rw [List.map_map, rowIdsOf]
  refine List.map_congr_left fun b member => ?_
  have inside := List.mem_range.mp (List.mem_of_mem_filter member)
  rw [Function.comp_apply, rowId_eq runs proper.clean (placed b inside)]

/-- A scan of a table that meets the conditions is exact; with assertions it also needs a row
to return. -/
theorem scan_exact (accepted : join.accept = .ok (width, modes))
    (runs : execution.Runs unique mode join width modes positive)
    (proper : Proper join unique execution width modes) {assertions : Bool}
    (some : assertions = true → ∃ b < join.buildRows, belongs join mode b = true) :
    ∃ rows, scan assertions mode join execution = .rowIds rows ∧
      rows.Perm (rowIdsOf ((List.range join.buildRows).filter (belongs join mode))) := by
  have written := written_perm accepted runs proper
  have nonempty : htLen join ≠ 0 := Nat.mul_ne_zero (Nat.ne_of_gt positive) (by decide)
  have passes : ¬ (assertions = true ∧ execution.count mode join = 0) := by
    rintro ⟨checked, zero⟩
    obtain ⟨b, inside, kept⟩ := some checked
    rw [zero, List.range_zero, List.map_nil, List.nil_perm, rowIdsOf, List.map_eq_nil_iff,
      List.filter_eq_nil_iff] at written
    exact written b (List.mem_range.mpr inside) kept
  refine ⟨_, ?_, written⟩
  rw [scan, accepted]
  simp only
  rw [if_neg nonempty, if_neg passes]

end Marks

/-! ## The two joins -/

section Joins

variable {join : Join} {unique : Bool}

theorem rowIdsOf_partition (join : Join) :
    (rowIdsOf ((List.range join.buildRows).filter (belongs join .rightSemi)) ++
      rowIdsOf ((List.range join.buildRows).filter (belongs join .rightAnti))).Perm
        (rowIdsOf (List.range join.buildRows)) := by
  rw [rowIdsOf, rowIdsOf, ← List.map_append]
  exact (List.filter_append_perm (hasMatch join) (List.range join.buildRows)).map _

/-- In runs that meet the conditions the two joins return exactly the build rows that have a
match and those that have none, and every build row is returned once by one of them. A build
with assertions also needs a row for each of the two. -/
theorem right_semi_anti_partition (join : Join) (unique assertions : Bool) (semi anti : Execution)
    (possible : semi.Possible unique .rightSemi join ∧ anti.Possible unique .rightAnti join)
    (proper : ∀ width modes, join.accept = .ok (width, modes) → join.buildRows ≠ 0 →
      Proper join unique semi width modes ∧ Proper join unique anti width modes)
    (some : assertions = true → join.buildRows ≠ 0 →
      (∃ b < join.buildRows, hasMatch join b = true) ∧
        ∃ b < join.buildRows, hasMatch join b = false) :
    (scan assertions .rightSemi join semi).Exact join .rightSemi ∧
      (scan assertions .rightAnti join anti).Exact join .rightAnti ∧
        Partition join (scan assertions .rightSemi join semi)
          (scan assertions .rightAnti join anti) := by
  cases accepted : join.accept with
  | error message =>
      rw [scan, scan, accepted]
      exact ⟨trivial, trivial, trivial⟩
  | ok taken =>
      obtain ⟨width, modes⟩ := taken
      rcases Nat.eq_zero_or_pos join.buildRows with empty | positive
      · have nothing : htLen join = 0 := by rw [htLen, empty, Nat.zero_mul]
        rw [scan, scan, accepted]
        simp only
        rw [if_pos nothing, if_pos nothing]
        simp [Outcome.Exact, Partition, empty, rowIdsOf]
      · have proper := proper width modes accepted (Nat.ne_of_gt positive)
        have some (checked : assertions = true) := some checked (Nat.ne_of_gt positive)
        obtain ⟨rows, semiRows, semiPerm⟩ := scan_exact accepted
          (possible.1 width modes positive accepted) proper.1 fun checked => (some checked).1
        obtain ⟨rows', antiRows, antiPerm⟩ := scan_exact accepted
          (possible.2 width modes positive accepted) proper.2 fun checked => by
            obtain ⟨b, inside, unmatched⟩ := (some checked).2
            exact ⟨b, inside, by rw [belongs, unmatched]; rfl⟩
        rw [semiRows, antiRows]
        exact ⟨semiPerm, antiPerm, (semiPerm.append antiPerm).trans (rowIdsOf_partition join)⟩

/-- On a table with free slots on every path all walks end. -/
theorem exists_walked {width : KeyWidth} {modes : List Nat} {positive : 0 < join.buildRows}
    {schedule : List Nat} {s : State Word}
    (run : (join.table width modes positive).insertion.Run schedule s)
    (roomy : (join.table width modes positive).insertion.Roomy) (unique : Bool) (p : Nat) :
    ∃ marks, Walked unique join s width modes positive p marks := by
  simp only [Walked]
  split
  case h_1 => exact ⟨[], rfl⟩
  case h_2 slot start =>
    have inside := (join.table width modes positive).startSlot_lt start
    obtain ⟨k, _, free⟩ := roomy_free (run_inv run) roomy inside
    have ahead : looksEmpty (join.table width modes positive).insertion s
        ((join.table width modes positive).insertion.path slot k) = true := by
      simpa [looksEmpty] using free
    obtain ⟨fuel, found, ran⟩ := exists_walkAll _
      (fun x => localFound modes (s.cells x) (join.probeWord width p)) inside ahead
    cases unique with
    | true => exact ⟨_, fuel, by rw [probeWalk, if_pos rfl, walkFirst_of_walkAll ran]; rfl⟩
    | false => exact ⟨found, fuel, by rw [probeWalk, if_neg Bool.false_ne_true, ran]⟩

/-- A join whose table keeps free slots on every path has an execution. -/
theorem exists_possible (join : Join) (unique : Bool) (mode : JoinMode)
    (roomy : ∀ width modes (positive : 0 < join.buildRows), join.accept = .ok (width, modes) →
      (join.table width modes positive).insertion.Roomy) :
    ∃ execution : Execution, execution.Possible unique mode join := by
  by_cases launched : 0 < join.buildRows ∧ ∃ taken, join.accept = .ok taken
  · obtain ⟨positive, ⟨width, modes⟩, accepted⟩ := launched
    have roomy := roomy width modes positive accepted
    obtain ⟨schedule, s, run, finished⟩ := exists_finished (ends_iff_roomy.mpr roomy).1
    have walks (p : Nat) : ∃ marks, Walked unique join s width modes positive p marks :=
      exists_walked run roomy unique p
    choose marks probed using walks
    let tiles := List.range (numTiles BLOCK_THREADS ITEMS_PER_THREAD (htLen join))
    let unwritten : Execution := ⟨schedule, s, marks, (List.range join.probeRows).flatMap fun p =>
      (marks p).map fun slot => (p, slot), tiles, tiles, []⟩
    refine ⟨{ unwritten with
      writes := gridWrites BLOCK_THREADS (unwritten.scanned mode join) tiles }, ?_⟩
    intro width' modes' positive' accepted'
    obtain ⟨rfl, rfl⟩ : width = width' ∧ modes = modes' := by
      simpa using accepted.symm.trans accepted'
    exact ⟨run, finished, fun p _ => probed p, List.Perm.refl _, List.Perm.refl _,
      List.Perm.refl _, List.Perm.refl _⟩
  · refine ⟨⟨[], ⟨fun _ _ => 0, fun _ => .done 0⟩, fun _ => [], [], [], [], []⟩, ?_⟩
    intro width modes positive accepted
    exact absurd ⟨positive, _, accepted⟩ launched

/-- One probe row whose key is that of the first of two build rows. -/
def twoRows : Join where
  planned := [⟨.equal, .INT64, fun _ => 0, fun i => if i < 8 then 0 else 1, fun _ _ => true,
    fun _ _ => true⟩]
  probeRows := 1
  buildRows := 2
  nonempty := by simp
  probeRows_lt := one_row_lt
  buildRows_lt := two_rows_lt

theorem twoRows_accept : twoRows.accept = .ok (.int64, [0]) := rfl

theorem twoRows_real (b : Nat) (inside : b < 2) : twoRows.buildWord .int64 b 0 ≠ EMPTY := by
  rcases Nat.le_one_iff_eq_zero_or_eq_one.mp (Nat.le_of_lt_succ inside) with rfl | rfl <;> decide

theorem twoRows_fits (b : Nat) (inside : b < 2) :
    FitsSome twoRows .int64 b ↔ hasMatch twoRows b = true := by
  have fits : FitsSome twoRows .int64 b ↔ twoRows.Fits .int64 0 b = true := by
    constructor
    · rintro ⟨p, one, -, fits⟩
      obtain rfl : p = 0 := Nat.lt_one_iff.mp one
      exact fits
    · intro fits
      exact ⟨0, Nat.one_pos, twoRows_real b inside, fits⟩
  rw [fits]
  rcases Nat.le_one_iff_eq_zero_or_eq_one.mp (Nat.le_of_lt_succ inside) with rfl | rfl <;> decide

theorem two_rows_partition : ∃ semi anti : Execution,
    (scan true .rightSemi twoRows semi).Exact twoRows .rightSemi ∧
      (scan true .rightAnti twoRows anti).Exact twoRows .rightAnti ∧
        Partition twoRows (scan true .rightSemi twoRows semi)
          (scan true .rightAnti twoRows anti) := by
  have some (mode : JoinMode) : ∃ execution : Execution, execution.Possible false mode twoRows :=
    exists_possible twoRows false mode fun width modes positive _ =>
      Build.roomy_of_coprime (by change Nat.Coprime STRIDE 2; decide)
  obtain ⟨semi, possible⟩ := some .rightSemi
  obtain ⟨anti, possible'⟩ := some .rightAnti
  have proper {mode : JoinMode} {execution : Execution}
      (possible : execution.Possible false mode twoRows) (width : KeyWidth) (modes : List Nat)
      (accepted : twoRows.accept = .ok (width, modes)) :
      Proper twoRows false execution width modes := by
    rw [twoRows_accept] at accepted
    cases accepted
    have runs := possible .int64 [0] Nat.two_pos twoRows_accept
    refine ⟨by decide, ?_, by simp, twoRows_fits⟩
    refine exclusive_of_real (run_inv runs.built) fun row inside => ?_
    exact (real_iff (Nat.one_pos)).mpr (twoRows_real row inside)
  refine ⟨semi, anti, right_semi_anti_partition twoRows false true semi anti
    ⟨possible, possible'⟩ (fun width modes accepted _ => ?_) fun _ _ => ?_⟩
  · exact ⟨proper possible width modes accepted, proper possible' width modes accepted⟩
  · exact ⟨⟨0, by decide, by decide⟩, ⟨1, by decide, by decide⟩⟩

/-- A key of all ones matches nothing: its row is not returned. -/
theorem all_ones_key_unmatched : ¬ ∀ (join : Join) (unique : Bool) (semi anti : Execution),
    semi.Possible unique .rightSemi join → anti.Possible unique .rightAnti join →
    ∀ assertions, (scan assertions .rightSemi join semi).Exact join .rightSemi ∧
      (scan assertions .rightAnti join anti).Exact join .rightAnti := by
  intro exact
  have some (mode : JoinMode) :
      ∃ execution : Execution, execution.Possible false mode (oneRow 0xFF) :=
    exists_possible (oneRow 0xFF) false mode fun width modes positive _ =>
      Build.roomy_of_coprime (Nat.coprime_one_right STRIDE)
  obtain ⟨semi, possible⟩ := some .rightSemi
  obtain ⟨anti, possible'⟩ := some .rightAnti
  have accepted := oneRow_accept 0xFF
  have runs := possible .int64 [0] Nat.one_pos accepted
  have clean : Exclusive semi.table := by
    intro row row' slot placed placed'
    have first := (lt_of_claimed accepted runs (by decide) placed).1
    have first' := (lt_of_claimed accepted runs (by decide) placed').1
    exact (Nat.lt_one_iff.mp first).trans (Nat.lt_one_iff.mp first').symm
  have unselected : semi.selected .rightSemi (oneRow 0xFF) = fun _ => false := by
    funext x
    rw [Execution.selected, decide_eq_false_iff_not, flag_ne_iff runs]
    rintro ⟨p, inside, member⟩
    obtain ⟨b, hb, -, real, -⟩ := (marks_cases accepted runs (by decide) clean inside).1 x member
    obtain rfl : b = 0 := Nat.lt_one_iff.mp hb
    exact real (by decide)
  have scanned := scanned_perm runs
  rw [unselected, List.filter_false, List.map_nil, List.perm_nil, List.map_eq_nil_iff,
    List.range_eq_nil] at scanned
  have right := (exact (oneRow 0xFF) false semi anti possible possible' false).1
  have nonempty : htLen (oneRow 0xFF) ≠ 0 := by decide
  have result : scan false .rightSemi (oneRow 0xFF) semi = .rowIds [] := by
    rw [scan, accepted]
    simp [nonempty, scanned]
  rw [result] at right
  have length := right.length_eq
  revert length
  decide

end Joins

end RightSemiAntiJoin
