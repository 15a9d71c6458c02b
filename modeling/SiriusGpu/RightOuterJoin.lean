import Mathlib
import SiriusGpu.UniqueBuildKeys

/-!
# The RIGHT join over its two phases

`Execute` probes the table and writes the pairs of matching rows; on the way every
match leaves its probe row in the last column of its slot. `GetData` runs in another
pipeline: it scans the same table and returns the row ids of the slots that nobody
has marked, without a row of the left side.

The row ids of both phases are compared with the right outer join of the inputs.
-/

namespace RightOuterJoin

open HashJoinProbe HashTableBuild OpenAddressing BlockCompaction
open RightSemiAntiJoin (Walked FitsReal FitsSome JoinMode hasMatch belongs rowIdsOf htLen)
open SemiMarkJoin (BLOCK_THREADS ITEMS_PER_THREAD)
open TwoPassCompaction (blockMatches Unshared)
open UniqueBuildKeys (DistinctKeys SingleFit narrow)

/-- What the build, the probe and the scan leave open; the table is that of the scan. -/
structure Execution where
  probe : UniqueBuildKeys.Execution
  scan : RightSemiAntiJoin.Execution

/-- Row ids of the left side, where there is one, and of the right side. -/
inductive Outcome where
  | raised (message : String)
  | aborted
  | undefined
  | rows (emitted : List (Option (Option Nat × Word)))

section Operator

variable (assertions unique : Bool) (join : Join) (execution : Execution)

/-- The rows of `Execute`. -/
def matched (pairs : List (Option (Nat × Word))) : List (Option (Option Nat × Word)) :=
  pairs.map (Option.map fun pair => (some pair.1, pair.2))

/-- The rows of `GetData`. -/
def unmatched (rowIds : List (Option Word)) : List (Option (Option Nat × Word)) :=
  rowIds.map (Option.map fun rowId => (none, rowId))

/-- `Sink`, `Execute` and `GetData` of a RIGHT join. -/
def rightOuterJoin : Outcome :=
  match join.accept with
  | .error message => .raised message
  | .ok _ =>
      match UniqueBuildKeys.right assertions unique join execution.scan.table execution.probe with
      | .aborted => .aborted
      | .undefined => .undefined
      | .pairs pairs =>
          match RightSemiAntiJoin.scan assertions .rightAnti join execution.scan with
          | .raised message => .raised message
          | .aborted => .aborted
          | .rowIds rowIds => .rows (matched pairs ++ unmatched rowIds)

/-- The probe walks over the table that the scan reads, and marks the slots of its pairs. -/
structure Execution.Runs (width : KeyWidth) (modes : List Nat) (positive : 0 < join.buildRows) :
    Prop where
  probed : execution.probe.Runs unique join execution.scan.table width modes positive
  scanned : execution.scan.Runs unique .rightAnti join width modes positive
  marked : ∀ p < join.probeRows, execution.scan.marks p = execution.probe.found p

def Execution.Possible : Prop :=
  ∀ width modes (positive : 0 < join.buildRows), join.accept = .ok (width, modes) →
    execution.Runs unique join width modes positive

end Operator

/-! ## The outer join -/

section Outer

variable (join : Join)

/-- The build rows that satisfy all conditions with a probe row. -/
def partners (p : Nat) : List Nat := (List.range join.buildRows).filter (join.Satisfies p)

/-- Every pair of rows that satisfies all conditions, and every build row without one. -/
def outerRows : List (Option Nat × Word) :=
  ((List.range join.probeRows).flatMap fun p =>
      (partners join p).map fun b => (some p, BitVec.ofNat 64 b)) ++
    ((List.range join.buildRows).filter fun b => !hasMatch join b).map fun b =>
      (none, BitVec.ofNat 64 b)

/-- The rows of the outer join, or an exception. -/
def Outcome.Exact (outcome : Outcome) : Prop :=
  match outcome with
  | .raised _ => True
  | .aborted => False
  | .undefined => False
  | .rows emitted => emitted.Perm ((outerRows join).map some)

/-- What the inputs have to meet: a hash is defined, no build row is taken for an empty slot,
all keys are integers as wide as they are read, and a unique build key is compared for equality
and its row ids fit an `int`. Without one the pairs of a block's probe rows are counted in an
`int`, and the offsets of the threads have an index of 32 bits. -/
structure Suitable (unique : Bool) (width : KeyWidth) (modes : List Nat) : Prop where
  hash : modes.count 0 ≤ 2
  real : ∀ b < join.buildRows, join.buildWord width b 0 ≠ EMPTY
  integers : ∀ condition ∈ join.planned, (width = .int32 ∧ condition.type = .INT32) ∨
    (width = .int64 ∧ condition.type = .INT64)
  distinct : unique = true → join.buildRows ≤ 2 ^ 31 ∧
    ∃ condition ∈ join.conditions, condition.comparison.isEquality = true ∧
      DistinctKeys join width condition
  counted : unique = false → join.probeRows ≤ 2 ^ 34 ∧
    ∀ block < numTiles BLOCK_THREADS ITEMS_PER_THREAD join.probeRows,
      blockMatches BLOCK_THREADS ITEMS_PER_THREAD join.probeRows
        (fun p => (partners join p).length) block < 2 ^ 31

end Outer

/-! ## The pairs of one probe row -/

section Pairs

variable {join : Join} {unique : Bool} {execution : Execution}
variable {width : KeyWidth} {modes : List Nat} {positive : 0 < join.buildRows}

theorem Suitable.single (suitable : Suitable join unique width modes) (flagged : unique = true) :
    SingleFit join width := by
  obtain ⟨-, condition, member, equality, distinct⟩ := suitable.distinct flagged
  exact UniqueBuildKeys.singleFit_of_unique member equality distinct

theorem Suitable.fitsReal_iff (suitable : Suitable join unique width modes)
    (accepted : join.accept = .ok (width, modes)) {p b : Nat} (inside : b < join.buildRows) :
    FitsReal join width p b ↔ join.Satisfies p b = true := by
  rw [FitsReal, fits_eq_satisfies (accept_eq accepted).2 suitable.integers]
  exact and_iff_right (suitable.real b inside)

theorem Suitable.fitsSome_iff (suitable : Suitable join unique width modes)
    (accepted : join.accept = .ok (width, modes)) {b : Nat} (inside : b < join.buildRows) :
    FitsSome join width b ↔ hasMatch join b = true := by
  rw [FitsSome, hasMatch, List.any_eq_true]
  constructor
  · rintro ⟨p, hp, fits⟩
    exact ⟨p, List.mem_range.mpr hp, (suitable.fitsReal_iff accepted inside).mp fits⟩
  · rintro ⟨p, member, satisfied⟩
    exact ⟨p, List.mem_range.mp member, (suitable.fitsReal_iff accepted inside).mpr satisfied⟩

theorem Execution.Runs.exclusive (runs : execution.Runs unique join width modes positive)
    (suitable : Suitable join unique width modes) : Exclusive execution.scan.table := by
  have inv := run_inv runs.scanned.built
  refine exclusive_of_real inv fun row inside => (real_iff (numKeys_pos join)).mpr ?_
  have few : (join.table width modes positive).insertedRows ≤ join.buildRows := by
    rw [Build.insertedRows]
    split
    · exact Nat.le_refl _
    · exact Nat.zero_le _
  exact suitable.real row (Nat.lt_of_lt_of_le inside few)

/-- The slots of a probe row are those of its partners. -/
theorem mem_found (accepted : join.accept = .ok (width, modes))
    (runs : execution.Runs unique join width modes positive)
    (suitable : Suitable join unique width modes) {p : Nat} (inside : p < join.probeRows)
    (slot : Nat) : slot ∈ execution.probe.found p ↔ ∃ b ∈ partners join p,
      (execution.scan.table.thread b).claimed = some slot := by
  have clean := runs.exclusive suitable
  obtain ⟨owned, found⟩ :=
    RightSemiAntiJoin.marks_cases accepted runs.scanned suitable.hash clean inside
  rw [runs.marked p inside] at owned found
  constructor
  · intro member
    obtain ⟨b, hb, placed, fits⟩ := owned slot member
    have satisfied := (suitable.fitsReal_iff accepted hb).mp fits
    exact ⟨b, List.mem_filter.mpr ⟨List.mem_range.mpr hb, satisfied⟩, placed⟩
  · rintro ⟨b, member, placed⟩
    obtain ⟨hb, satisfied⟩ := List.mem_filter.mp member
    have hb := List.mem_range.mp hb
    have fits := (suitable.fitsReal_iff accepted hb).mpr satisfied
    obtain ⟨x, hit, placed'⟩ := found b hb fits fun flagged b' hb' fits' =>
      suitable.single flagged p inside b' hb' b hb fits' fits
    obtain rfl := Option.some.inj (placed.symm.trans placed')
    exact hit

/-- No slot is met twice. -/
theorem walked_nodup {table : State Word} {p : Nat} {found : List Nat}
    (walked : Walked unique join table width modes positive p found) : found.Nodup := by
  cases unique with
  | false => exact (UniqueBuildKeys.walked_slots walked).1
  | true =>
      rcases UniqueBuildKeys.walked_cases walked with ⟨-, rfl⟩ | ⟨slot, fuel, -, -, ran⟩
      · exact List.nodup_nil
      · rw [RightSemiAntiJoin.probeWalk, if_pos rfl] at ran
        obtain ⟨first, -, rfl⟩ := Option.map_eq_some_iff.mp ran
        cases first <;> simp

theorem ofNat_inj {b b' : Nat} (hb : b < join.buildRows) (hb' : b' < join.buildRows)
    (same : BitVec.ofNat 64 b = BitVec.ofNat 64 b') : b = b' := by
  have rows := join.buildRows_lt
  have values := congrArg BitVec.toNat same
  rwa [BitVec.toNat_ofNat, BitVec.toNat_ofNat, Nat.mod_eq_of_lt (by omega),
    Nat.mod_eq_of_lt (by omega)] at values

/-- The pairs of a probe row are those with its partners, each once. -/
theorem pairsOf_perm (accepted : join.accept = .ok (width, modes))
    (runs : execution.Runs unique join width modes positive)
    (suitable : Suitable join unique width modes) {p : Nat} (inside : p < join.probeRows) :
    (execution.probe.pairsOf unique join execution.scan.table p).Perm
      ((partners join p).map fun b => (p, BitVec.ofNat 64 b)) := by
  have clean := runs.exclusive suitable
  have members := mem_found accepted runs suitable inside
  have below {b : Nat} (member : b ∈ partners join p) : b < join.buildRows :=
    List.mem_range.mp (List.mem_of_mem_filter member)
  -- the row id that is read from the slot of a partner
  have read {b slot : Nat} (member : b ∈ partners join p)
      (placed : (execution.scan.table.thread b).claimed = some slot) :
      (if unique then narrow (execution.scan.table.cells slot join.numKeys)
        else execution.scan.table.cells slot join.numKeys) = BitVec.ofNat 64 b := by
    have rowId : execution.scan.table.cells slot join.numKeys = BitVec.ofNat 64 b :=
      RightSemiAntiJoin.rowId_eq runs.scanned clean placed
    rw [rowId]
    cases flagged : unique with
    | false => rfl
    | true =>
        rw [if_pos rfl]
        have small := (suitable.distinct flagged).1
        exact UniqueBuildKeys.narrow_of_small (Nat.lt_of_lt_of_le (below member) small)
  rw [UniqueBuildKeys.Execution.pairsOf, List.perm_ext_iff_of_nodup]
  · rintro ⟨q, id⟩
    simp only [List.mem_map, Prod.mk.injEq]
    constructor
    · rintro ⟨slot, hit, rfl, rfl⟩
      obtain ⟨b, member, placed⟩ := (members slot).mp hit
      exact ⟨b, member, rfl, (read member placed).symm⟩
    · rintro ⟨b, member, rfl, rfl⟩
      have inserted : (join.table width modes positive).insertedRows = join.buildRows :=
        (RightSemiAntiJoin.probing_of_hash accepted suitable.hash positive).inserted
      obtain ⟨slot, placed⟩ := exists_slot runs.scanned.table (inserted.symm ▸ below member)
      exact ⟨slot, (members slot).mpr ⟨b, member, placed⟩, rfl, read member placed⟩
  · have found := walked_nodup (runs.probed.probed p inside)
    refine found.map_on fun slot hit slot' hit' same => ?_
    obtain ⟨b, member, placed⟩ := (members slot).mp hit
    obtain ⟨b', member', placed'⟩ := (members slot').mp hit'
    have ids := (Prod.mk.inj same).2
    rw [read member placed, read member' placed'] at ids
    obtain rfl := ofNat_inj (below member) (below member') ids
    exact Option.some.inj (placed.symm.trans placed')
  · refine (List.nodup_range.filter _).map_on fun b member b' member' same => ?_
    exact ofNat_inj (below member) (below member') (Prod.mk.inj same).2

end Pairs

/-! ## Both phases -/

section Phases

variable {join : Join} {unique assertions : Bool} {execution : Execution}
variable {width : KeyWidth} {modes : List Nat} {positive : 0 < join.buildRows}

/-- The counters of the general probe do not overflow, and its threads have their own entries. -/
theorem counted (accepted : join.accept = .ok (width, modes))
    (runs : execution.Runs unique join width modes positive)
    (suitable : Suitable join unique width modes) (general : unique = false) :
    execution.probe.Counted join ∧
      Unshared BLOCK_THREADS ITEMS_PER_THREAD join.probeRows execution.probe.matched := by
  obtain ⟨few, fits⟩ := suitable.counted general
  refine ⟨fun block known => ?_, UniqueBuildKeys.unshared_of_rows few⟩
  rw [TwoPassCompaction.blockMatches_congr (by decide) known fun p inside => ?_]
  · exact fits block known
  · have pairs := (pairsOf_perm accepted runs suitable inside).length_eq
    rw [UniqueBuildKeys.Execution.pairsOf, List.length_map, List.length_map] at pairs
    exact pairs

/-- `Execute` writes every pair of partners once. -/
theorem matched_perm (accepted : join.accept = .ok (width, modes))
    (runs : execution.Runs unique join width modes positive)
    (suitable : Suitable join unique width modes) :
    (matched ((List.range (execution.probe.count unique join execution.scan.table)).map
      (perform execution.probe.writes))).Perm
        (((List.range join.probeRows).flatMap fun p =>
          (partners join p).map fun b => (some p, BitVec.ofNat 64 b)).map some) := by
  have pairs : ((List.range join.probeRows).flatMap
      (execution.probe.pairsOf unique join execution.scan.table)).Perm
        ((List.range join.probeRows).flatMap fun p =>
          (partners join p).map fun b => (p, BitVec.ofNat 64 b)) :=
    List.Perm.flatMap_left _ fun p member =>
      pairsOf_perm accepted runs suitable (List.mem_range.mp member)
  have written := (UniqueBuildKeys.right_pairs runs.probed
    (counted accepted runs suitable)).trans (pairs.map some)
  refine (written.map _).trans (List.Perm.of_eq ?_)
  rw [List.map_map, List.map_flatMap, List.map_flatMap]
  simp [Function.comp_def]

/-- A run of the scan meets the conditions of the RIGHT_ANTI join. -/
theorem proper (accepted : join.accept = .ok (width, modes))
    (runs : execution.Runs unique join width modes positive)
    (suitable : Suitable join unique width modes) :
    RightSemiAntiJoin.Proper join unique execution.scan width modes where
  hash := suitable.hash
  clean := runs.exclusive suitable
  single := by
    rintro flagged b hb ⟨p, hp, fits⟩
    exact ⟨p, hp, fits, fun b' hb' fits' =>
      suitable.single flagged p hp b' hb' b hb fits' fits⟩
  reads := fun _ inside => suitable.fitsSome_iff accepted inside

/-- `GetData` returns every build row without a partner once. -/
theorem unmatched_perm {rowIds : List (Option Word)}
    (rest : rowIds.Perm (rowIdsOf ((List.range join.buildRows).filter (belongs join .rightAnti)))) :
    (unmatched rowIds).Perm ((((List.range join.buildRows).filter fun b => !hasMatch join b).map
      fun b => (@none Nat, BitVec.ofNat 64 b)).map some) := by
  refine (rest.map _).trans (List.Perm.of_eq ?_)
  rw [rowIdsOf, List.map_map, List.map_map]
  rfl

/-- A join whose table keeps free slots on every path can be run. -/
theorem exists_possible (join : Join) (unique : Bool)
    (roomy : ∀ width modes (positive : 0 < join.buildRows), join.accept = .ok (width, modes) →
      (join.table width modes positive).insertion.Roomy) :
    ∃ execution : Execution, execution.Possible unique join := by
  obtain ⟨scan, possible⟩ := RightSemiAntiJoin.exists_possible join unique .rightAnti roomy
  by_cases launched : 0 < join.buildRows ∧ ∃ taken, join.accept = .ok taken
  · obtain ⟨positive, ⟨width, modes⟩, accepted⟩ := launched
    have scanned := possible width modes positive accepted
    obtain ⟨probe, found, probed⟩ := UniqueBuildKeys.exists_runs scanned.probed
    refine ⟨⟨probe, scan⟩, fun width' modes' positive' accepted' => ?_⟩
    obtain ⟨rfl, rfl⟩ : width = width' ∧ modes = modes' := by
      simpa using accepted.symm.trans accepted'
    exact ⟨probed, scanned, fun p _ => by rw [found]⟩
  · refine ⟨⟨⟨fun _ => [], [], [], []⟩, scan⟩, fun width modes positive accepted => ?_⟩
    exact absurd ⟨positive, _, accepted⟩ launched

section TwoRows

open RightSemiAntiJoin (twoRows twoRows_accept twoRows_real)

theorem twoRows_suitable (unique : Bool) (width : KeyWidth) (modes : List Nat)
    (accepted : twoRows.accept = .ok (width, modes)) : Suitable twoRows unique width modes := by
  rw [twoRows_accept] at accepted
  cases accepted
  refine ⟨by decide, twoRows_real, ?_, fun _ => ⟨by decide, ?_⟩, fun _ => ⟨by decide, ?_⟩⟩
  · intro condition member
    obtain rfl := List.mem_singleton.mp member
    exact .inr ⟨rfl, rfl⟩
  · refine ⟨_, List.mem_singleton.mpr rfl, rfl, fun b hb b' hb' same => ?_⟩
    revert same
    rcases UniqueBuildKeys.lt_two hb with rfl | rfl <;>
      rcases UniqueBuildKeys.lt_two hb' with rfl | rfl <;> decide
  · intro block known
    refine (TwoPassCompaction.blockMatches_le (by decide) (fun p inside => ?_) known).trans_lt
      (by decide)
    obtain rfl : p = 0 := Nat.lt_one_iff.mp inside
    decide

end TwoRows

end Phases

end RightOuterJoin
