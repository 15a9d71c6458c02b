import SiriusGpu.HashJoinProbe
import SiriusGpu.BlockCompaction

/-!
# SEMI and MARK hash joins

The build of the table, the probe with a single match per row, and what the two joins
make of it: the SEMI join compacts the row ids of the rows that found a match, the
MARK join writes one flag for every probe row.
-/

namespace SemiMarkJoin

open HashJoinProbe HashTableBuild OpenAddressing BlockCompaction

def BLOCK_THREADS : Nat := 128

def ITEMS_PER_THREAD : Nat := 4

inductive Outcome where
  | raised (message : String)
  | aborted
  | rowIds (rows : List (Option Nat))
  | marks (marked : List Bool)

/-- What a run of the kernels leaves open: the order of the steps of the build and the
table it ends with, where every probe row's walk ends, the order of the blocks and
writes of the compaction, and what a fresh buffer holds. -/
structure Execution where
  schedule : List Nat
  table : State Word
  found : Nat → Option Nat
  order : List Nat
  writes : List (Nat × Nat)
  memory : Nat → Bool

section Operator

variable (assertions : Bool) (join : Join) (execution : Execution)

/-- `selection_flags` of a probe row. -/
def Execution.flag (p : Nat) : Bool := (execution.found p).isSome

def Execution.count : Nat :=
  (execution.order.map fun block => exclusiveSum
    (tileSelected BLOCK_THREADS ITEMS_PER_THREAD join.probeRows execution.flag block)
    BLOCK_THREADS).sum

/-- The SEMI join; `assertions` says whether the build keeps its `assert`s. -/
def semi : Outcome :=
  match join.accept with
  | .error message => .raised message
  | .ok _ =>
      if join.probeRows = 0 ∨ join.buildRows = 0 then .rowIds []
      else if assertions = true ∧ execution.count join = 0 then .aborted
      else .rowIds ((List.range (execution.count join)).map (perform execution.writes))

/-- The MARK join; without a hash for the equality keys no thread writes a flag. -/
def mark : Outcome :=
  match join.accept with
  | .error message => .raised message
  | .ok (_, modes) =>
      if join.probeRows = 0 ∨ join.buildRows = 0 then
        .marks (List.replicate join.probeRows false)
      else if modes.count 0 = 1 ∨ modes.count 0 = 2 then
        .marks ((List.range join.probeRows).map execution.flag)
      else .marks ((List.range join.probeRows).map execution.memory)

/-- The execution is one of the kernels on two sides that are not empty, and all loops end. -/
structure Execution.Runs (width : KeyWidth) (modes : List Nat) (positive : 0 < join.buildRows) :
    Prop where
  built : (join.table width modes positive).insertion.Run execution.schedule execution.table
  finished : (join.table width modes positive).insertion.Finished execution.table
  probed : ∀ p < join.probeRows,
    match startSlot (modes.count 0) (join.table width modes positive).htLen
        (join.probeWord width p) with
    | none => execution.found p = none
    | some slot => ∃ fuel, walkFirst (join.table width modes positive).insertion
        (looksEmpty (join.table width modes positive).insertion execution.table)
        (fun x => localFound modes (execution.table.cells x) (join.probeWord width p)) fuel slot =
          some (execution.found p)
  blocks : execution.order.Perm
    (List.range (numTiles BLOCK_THREADS ITEMS_PER_THREAD join.probeRows))
  writes : execution.writes.Perm (gridWrites BLOCK_THREADS
    (tileSelected BLOCK_THREADS ITEMS_PER_THREAD join.probeRows execution.flag) execution.order)

def Execution.Possible : Prop :=
  ∀ width modes (positive : 0 < join.buildRows), join.accept = .ok (width, modes) →
    execution.Runs join width modes positive

end Operator

/-! ## What the joins should return -/

section Exact

variable (join : Join)

/-- Some build row satisfies all conditions with the probe row. -/
def qualifies (p : Nat) : Bool :=
  (List.range join.buildRows).any fun b => join.Satisfies p b

/-- The rows of a SEMI join, each once, or the marks of a MARK join, or an exception. -/
def Outcome.Exact (outcome : Outcome) : Prop :=
  match outcome with
  | .raised _ => True
  | .aborted => False
  | .rowIds rows => rows.Perm (((List.range join.probeRows).filter (qualifies join)).map some)
  | .marks marked => marked = (List.range join.probeRows).map (qualifies join)

/-- Whether some build row fits the probe row by its words and is not taken for an empty slot. -/
def fitsReal (width : KeyWidth) (p : Nat) : Prop :=
  ∃ b < join.buildRows, join.buildWord width b 0 ≠ EMPTY ∧ join.Fits width p b = true

/-- The words that are read decide as the keys do, for every probe row. -/
def ReadsRight (width : KeyWidth) : Prop :=
  ∀ p < join.probeRows, fitsReal join width p ↔ qualifies join p = true

/-- What a run of a join over two sides that are not empty has to meet: a hash is defined, no
compare-and-swap takes a slot twice where further keys would mix, and the words decide. -/
structure Proper (execution : Execution) (width : KeyWidth) (modes : List Nat) : Prop where
  hash : modes.count 0 ≤ 2
  clean : join.numKeys = 1 ∨ Exclusive execution.table
  reads : ReadsRight join width

end Exact

section Join

variable {join : Join} {execution : Execution} {width : KeyWidth} {modes : List Nat}
variable {positive : 0 < join.buildRows} {assertions : Bool}

/-- Which probe rows find a match. -/
theorem flag_iff (accepted : join.accept = .ok (width, modes))
    (runs : execution.Runs join width modes positive) (hash : modes.count 0 ≤ 2)
    (clean : join.numKeys = 1 ∨ Exclusive execution.table) {p : Nat} (inside : p < join.probeRows) :
    execution.flag p = true ↔ fitsReal join width p := by
  have taken := (accept_eq accepted).2
  have few : modes.count 0 = 1 ∨ modes.count 0 = 2 := by
    have := count_pos taken
    omega
  have probing : Probing (join.table width modes positive) modes :=
    ⟨(modes_length taken).symm, rfl, hashed_of_modes taken few⟩
  let built : Built (join.table width modes positive) :=
    ⟨execution.schedule, execution.table, runs.built, runs.finished⟩
  have probed := runs.probed p inside
  obtain ⟨slot, start⟩ := (join.table width modes positive).startSlot_some few
    (join.table width modes positive).htLen (join.probeWord width p)
  have start' : startSlot (modes.count 0) (join.table width modes positive).htLen
    (join.probeWord width p) = some slot := start
  rw [start'] at probed
  obtain ⟨fuel, ran⟩ := probed
  rw [Execution.flag, walkFirst_isSome built probing clean start ran]
  simp only [Marked, Join.table, localFound_eq taken]
  rfl

/-- The row ids in memory are those of the rows that found a match. -/
theorem written_perm (runs : execution.Runs join width modes positive) :
    ((List.range (execution.count join)).map (perform execution.writes)).Perm
      (((List.range join.probeRows).filter execution.flag).map some) := by
  have places : 0 < BLOCK_THREADS * ITEMS_PER_THREAD := by decide
  simpa [Execution.count] using tiles_written places execution.flag id runs.blocks
    (by simpa using runs.writes)

theorem count_eq_length (runs : execution.Runs join width modes positive) :
    execution.count join = ((List.range join.probeRows).filter execution.flag).length := by
  simpa using (written_perm runs).length_eq

theorem filter_range_perm_iff {n : Nat} {p q : Nat → Bool} :
    (((List.range n).filter p).map some).Perm (((List.range n).filter q).map some) ↔
      ∀ x < n, p x = true ↔ q x = true := by
  rw [List.map_perm_map_iff (Option.some_injective _),
    List.perm_ext_iff_of_nodup (List.nodup_range.filter p) (List.nodup_range.filter q)]
  simp only [List.mem_filter, List.mem_range, and_congr_right_iff]

theorem semi_exact_iff (accepted : join.accept = .ok (width, modes))
    (runs : execution.Runs join width modes positive) (hash : modes.count 0 ≤ 2)
    (clean : join.numKeys = 1 ∨ Exclusive execution.table) (rows : join.probeRows ≠ 0) :
    (semi assertions join execution).Exact join ↔ ReadsRight join width ∧
      (assertions = true → ∃ p < join.probeRows, qualifies join p = true) := by
  have found (p : Nat) (inside : p < join.probeRows) :=
    flag_iff accepted runs hash clean inside
  have empty : ¬ (join.probeRows = 0 ∨ join.buildRows = 0) := by omega
  have exact : (((List.range (execution.count join)).map (perform execution.writes)).Perm
      (((List.range join.probeRows).filter (qualifies join)).map some)) ↔
        ReadsRight join width := by
    rw [(written_perm runs).congr_left, filter_range_perm_iff]
    exact forall₂_congr fun p inside => by rw [found p inside]
  have nothing : execution.count join = 0 ↔ ∀ p < join.probeRows, ¬ fitsReal join width p := by
    rw [count_eq_length runs, List.length_eq_zero_iff, List.filter_eq_nil_iff]
    simp only [List.mem_range]
    exact forall₂_congr fun p inside => by rw [found p inside]
  simp only [semi, accepted]
  rw [if_neg empty]
  by_cases stopped : assertions = true ∧ execution.count join = 0
  · rw [if_pos stopped]
    constructor
    · intro aborted
      exact aborted.elim
    · rintro ⟨reads, some⟩
      obtain ⟨p, inside, qualified⟩ := some stopped.1
      exact (nothing.mp stopped.2 p inside ((reads p inside).mpr qualified)).elim
  · rw [if_neg stopped]
    constructor
    · intro right
      have reads := exact.mp right
      refine ⟨reads, fun checked => ?_⟩
      by_contra none
      refine stopped ⟨checked, nothing.mpr fun p inside fits => none ⟨p, inside, ?_⟩⟩
      exact (reads p inside).mp fits
    · rintro ⟨reads, -⟩
      exact exact.mpr reads

theorem mark_exact_iff (accepted : join.accept = .ok (width, modes))
    (runs : execution.Runs join width modes positive) (hash : modes.count 0 ≤ 2)
    (clean : join.numKeys = 1 ∨ Exclusive execution.table) (rows : join.probeRows ≠ 0) :
    (mark join execution).Exact join ↔ ReadsRight join width := by
  have empty : ¬ (join.probeRows = 0 ∨ join.buildRows = 0) := by omega
  have few : modes.count 0 = 1 ∨ modes.count 0 = 2 := by
    have := count_pos (accept_eq accepted).2
    omega
  simp only [mark, accepted]
  rw [if_neg empty, if_pos few, Outcome.Exact, List.map_inj_left]
  simp only [List.mem_range]
  refine forall₂_congr fun p inside => ?_
  rw [Bool.eq_iff_iff, flag_iff accepted runs hash clean inside]

/-- Nothing qualifies against an empty side. -/
theorem empty_exact (assertions : Bool) (execution : Execution)
    (empty : join.probeRows = 0 ∨ join.buildRows = 0) :
    (semi assertions join execution).Exact join ∧ (mark join execution).Exact join := by
  have none : ∀ p < join.probeRows, qualifies join p = false := by
    intro p inside
    have build : join.buildRows = 0 := by omega
    simp [qualifies, build]
  have semiEmpty : (Outcome.rowIds []).Exact join := by
    have filtered : (List.range join.probeRows).filter (qualifies join) = [] := by
      rw [List.filter_eq_nil_iff]
      intro p inside
      rw [none p (List.mem_range.mp inside)]
      exact Bool.false_ne_true
    simp [Outcome.Exact, filtered]
  have markEmpty : (Outcome.marks (List.replicate join.probeRows false)).Exact join := by
    refine (List.eq_replicate_iff.mpr ⟨by simp, fun m member => ?_⟩).symm
    obtain ⟨p, inside, rfl⟩ := List.mem_map.mp member
    exact none p (List.mem_range.mp inside)
  rw [semi, mark]
  cases join.accept with
  | error message => exact ⟨trivial, trivial⟩
  | ok accepted =>
      simp only
      rw [if_pos empty, if_pos empty]
      exact ⟨semiEmpty, markEmpty⟩

/-- In a run that meets the conditions both joins are exact or raise; the SEMI join of a build
with assertions also needs a row that qualifies. -/
theorem semi_mark_exact (join : Join) (execution : Execution) (possible : execution.Possible join)
    (proper : ∀ width modes, join.accept = .ok (width, modes) → join.probeRows ≠ 0 →
      join.buildRows ≠ 0 → Proper join execution width modes) (assertions : Bool) :
    ((assertions = true → join.probeRows ≠ 0 → join.buildRows ≠ 0 →
        ∃ p < join.probeRows, qualifies join p = true) →
      (semi assertions join execution).Exact join) ∧ (mark join execution).Exact join := by
  by_cases empty : join.probeRows = 0 ∨ join.buildRows = 0
  · have exact := empty_exact assertions execution empty
    exact ⟨fun _ => exact.1, exact.2⟩
  · have rows : join.probeRows ≠ 0 := fun zero => empty (.inl zero)
    have build : join.buildRows ≠ 0 := fun zero => empty (.inr zero)
    cases accepted : join.accept with
    | error message =>
        rw [semi, mark, accepted]
        exact ⟨fun _ => trivial, trivial⟩
    | ok taken =>
        obtain ⟨width, modes⟩ := taken
        have positive : 0 < join.buildRows := Nat.pos_of_ne_zero build
        have runs := possible width modes positive accepted
        obtain ⟨hash, clean, reads⟩ := proper width modes accepted rows build
        constructor
        · intro some
          exact (semi_exact_iff accepted runs hash clean rows).mpr
            ⟨reads, fun checked => some checked rows build⟩
        · exact (mark_exact_iff accepted runs hash clean rows).mpr reads

/-- A join whose table keeps free slots on every path has an execution. -/
theorem exists_possible (join : Join)
    (roomy : ∀ width modes (positive : 0 < join.buildRows), join.accept = .ok (width, modes) →
      (join.table width modes positive).insertion.Roomy) :
    ∃ execution : Execution, execution.Possible join := by
  by_cases launched : 0 < join.buildRows ∧ ∃ taken, join.accept = .ok taken
  · obtain ⟨positive, ⟨width, modes⟩, accepted⟩ := launched
    have roomy := roomy width modes positive accepted
    obtain ⟨schedule, s, run, finished⟩ := exists_finished (ends_iff_roomy.mpr roomy).1
    have walks (p : Nat) : ∃ found : Option Nat,
        match startSlot (modes.count 0) (join.table width modes positive).htLen
          (join.probeWord width p) with
        | none => found = none
        | some slot => ∃ fuel, walkFirst (join.table width modes positive).insertion
            (looksEmpty (join.table width modes positive).insertion s)
            (fun x => localFound modes (s.cells x) (join.probeWord width p)) fuel slot =
              some found := by
      split
      case h_1 => exact ⟨none, rfl⟩
      case h_2 slot start =>
        have inside := (join.table width modes positive).startSlot_lt start
        obtain ⟨k, _, free⟩ := roomy_free (run_inv run) roomy inside
        have ahead : looksEmpty (join.table width modes positive).insertion s
            ((join.table width modes positive).insertion.path slot k) = true := by
          simpa [looksEmpty] using free
        obtain ⟨fuel, found, ran⟩ := exists_walkFirst _
          (fun x => localFound modes (s.cells x) (join.probeWord width p)) inside ahead
        exact ⟨found, fuel, ran⟩
    choose found probed using walks
    refine ⟨⟨schedule, s, found,
      List.range (numTiles BLOCK_THREADS ITEMS_PER_THREAD join.probeRows),
      gridWrites BLOCK_THREADS (tileSelected BLOCK_THREADS ITEMS_PER_THREAD join.probeRows
        fun p => (found p).isSome)
        (List.range (numTiles BLOCK_THREADS ITEMS_PER_THREAD join.probeRows)),
      fun _ => false⟩, ?_⟩
    intro width' modes' positive' accepted'
    obtain ⟨rfl, rfl⟩ : width = width' ∧ modes = modes' := by
      simpa using accepted.symm.trans accepted'
    exact ⟨run, finished, fun p _ => probed p, List.Perm.refl _, List.Perm.refl _⟩
  · refine ⟨⟨[], ⟨fun _ _ => 0, fun _ => .done 0⟩, fun _ => none, [], [], fun _ => false⟩, ?_⟩
    intro width modes positive accepted
    exact absurd ⟨positive, _, accepted⟩ launched

theorem oneRow_possible (byte : UInt8) :
    ∃ execution : Execution, execution.Possible (oneRow byte) := by
  refine exists_possible (oneRow byte) fun width modes positive _ => Build.roomy_of_coprime ?_
  exact Nat.coprime_one_right STRIDE

/-- The keys 0, 1 and 2 against 0 and 2. -/
def threeRows : Join where
  planned := [⟨.equal, .INT64, fun i => if i % 8 = 0 then UInt8.ofNat (i / 8) else 0,
    fun i => if i % 8 = 0 then UInt8.ofNat (i / 4) else 0, fun _ _ => true, fun _ _ => true⟩]
  probeRows := 3
  buildRows := 2
  nonempty := by simp
  probeRows_lt := by decide
  buildRows_lt := by decide

theorem threeRows_exact : ∃ execution : Execution, execution.Possible threeRows ∧
    (semi true threeRows execution).Exact threeRows ∧
      (mark threeRows execution).Exact threeRows := by
  obtain ⟨execution, possible⟩ : ∃ execution : Execution, execution.Possible threeRows :=
    exists_possible threeRows fun width modes positive _ =>
      Build.roomy_of_coprime (by decide : Nat.Coprime STRIDE 2)
  have exact :=
    semi_mark_exact threeRows execution possible (fun width modes accepted _ _ => ?_) true
  · exact ⟨execution, possible, exact.1 fun _ _ _ => ⟨0, by decide, by decide⟩, exact.2⟩
  · have planned : threeRows.accept = .ok (.int64, [0]) := rfl
    cases planned.symm.trans accepted
    have reads : ∀ p < 3, (∃ b < 2, threeRows.buildWord .int64 b 0 ≠ EMPTY ∧
        threeRows.Fits .int64 p b = true) ↔ qualifies threeRows p = true := by decide
    exact ⟨by decide, .inl rfl, reads⟩

/-- A key of all ones is lost in the build: its slot still looks empty. -/
theorem all_ones_key_lost : ¬ ∀ (join : Join) (execution : Execution), execution.Possible join →
    ∀ assertions, (semi assertions join execution).Exact join ∧
      (mark join execution).Exact join := by
  intro exact
  obtain ⟨execution, possible⟩ := oneRow_possible 0xFF
  have accepted := oneRow_accept 0xFF
  have runs := possible .int64 [0] Nat.one_pos accepted
  have right := (exact (oneRow 0xFF) execution possible false).2
  rw [mark_exact_iff accepted runs (by decide) (.inl rfl) Nat.one_ne_zero] at right
  obtain ⟨b, inside, real, _⟩ := (right 0 Nat.one_pos).mpr (by decide)
  obtain rfl : b = 0 := Nat.lt_one_iff.mp inside
  exact real (by decide)

end Join

end SemiMarkJoin
