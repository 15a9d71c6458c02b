import Mathlib
import SiriusGpu.CudfInnerJoin
import SiriusGpu.RightSemiAntiJoin
import SiriusGpu.SemiMarkJoin
import SiriusGpu.TwoPassCompaction

/-!
# The fast path for unique build keys

`Sink` sets `unique_build_keys` as soon as one of the build key columns is unique,
whatever the comparison it is used in. The flag selects cudf's distinct hash join for
an INNER join on equalities, and the probe that stops at the first match for RIGHT,
RIGHT_SEMI and RIGHT_ANTI joins. A SEMI join always stops there, and an INNER join
with an inequality does not look at the flag.

The paths of a device join are compared on one table. That of the flag counts and writes in one
kernel; the other one hands the places of its threads over in `offset_each_thread`.
-/

namespace UniqueBuildKeys

open HashJoinProbe HashTableBuild OpenAddressing BlockCompaction TwoPassCompaction
open RightSemiAntiJoin (probeWalk Walked JoinMode FitsReal)
open SemiMarkJoin (BLOCK_THREADS ITEMS_PER_THREAD)

/-- The flag after the loop of `Sink` over the build keys. -/
def uniqueBuildKeys (isUnique : List Bool) : Bool :=
  isUnique.foldl (fun unique column => if column then true else unique) false

/-! ## The pairs of a RIGHT join -/

inductive Outcome where
  | aborted
  | undefined
  | pairs (rows : List (Option (Nat × Word)))

/-- `items_off` is an array of `int`. -/
def narrow (rowId : Word) : Word := (rowId.truncate 32).signExtend 64

/-- What a run of a probe leaves open: the slots that every probe row finds, and the order
of the additions to the counter, of the stores of the offsets and of the writes. -/
structure Execution where
  found : Nat → List Nat
  order : List Nat
  stores : List (Nat × Nat)
  writes : List ((Nat × Word) × Nat)

section Right

variable (assertions unique : Bool) (join : Join) (table : State Word) (execution : Execution)

/-- The pairs written for a probe row. -/
def Execution.pairsOf (p : Nat) : List (Nat × Word) :=
  (execution.found p).map fun slot =>
    (p, if unique then narrow (table.cells slot join.numKeys) else table.cells slot join.numKeys)

def Execution.selected (block t : Nat) : List (Nat × Word) :=
  (tileItems BLOCK_THREADS ITEMS_PER_THREAD join.probeRows block t).flatMap
    (execution.pairsOf unique join table)

/-- `items_count`. -/
def Execution.matched (p : Nat) : Nat := (execution.found p).length

/-- What `probe_multikey` writes for a match of a probe row. -/
def Execution.pair (row : Nat × Nat) : Nat × Word :=
  (row.1, table.cells ((execution.found row.1).getD row.2 0) join.numKeys)

/-- The total of the counter. -/
def Execution.count : Nat :=
  if unique then
    (execution.order.map fun block =>
      exclusiveSum (execution.selected unique join table block) BLOCK_THREADS).sum
  else countTotal BLOCK_THREADS ITEMS_PER_THREAD join.probeRows execution.matched execution.order

/-- The writes of all threads. -/
def Execution.allWrites : List ((Nat × Word) × Nat) :=
  if unique then
    gridWrites BLOCK_THREADS (execution.selected unique join table) execution.order
  else (probeWrites BLOCK_THREADS ITEMS_PER_THREAD join.probeRows execution.matched
    execution.stores).map fun write => (execution.pair join table write.1, write.2)

/-- The `int` counters of a block of the general path do not overflow; with the flag a block has
no more than its rows. -/
def Execution.Counted : Prop :=
  ∀ block < numTiles BLOCK_THREADS ITEMS_PER_THREAD join.probeRows,
    blockMatches BLOCK_THREADS ITEMS_PER_THREAD join.probeRows execution.matched block < 2 ^ 31

instance : Decidable (execution.Counted join) :=
  inferInstanceAs (Decidable (∀ block < numTiles BLOCK_THREADS ITEMS_PER_THREAD join.probeRows, _))

/-- `probeHashTableSingleMatch` with the join mode 3, or `probeHashTable`. -/
def right : Outcome :=
  if join.probeRows = 0 ∨ join.buildRows = 0 then .pairs []
  else if unique = false ∧ ¬ execution.Counted join then .undefined
  else if assertions = true ∧ execution.count unique join table = 0 then .aborted
  else .pairs ((List.range (execution.count unique join table)).map (perform execution.writes))

structure Execution.Runs (width : KeyWidth) (modes : List Nat) (positive : 0 < join.buildRows) :
    Prop where
  probed : ∀ p < join.probeRows,
    Walked unique join table width modes positive p (execution.found p)
  blocks : execution.order.Perm
    (List.range (numTiles BLOCK_THREADS ITEMS_PER_THREAD join.probeRows))
  stores : execution.stores.Perm (offsetStores BLOCK_THREADS ITEMS_PER_THREAD join.probeRows
    execution.matched execution.order)
  writes : execution.writes.Perm (execution.allWrites unique join table)

end Right

/-! ## When two paths agree -/

/-- Both raise, or both return the same set of pairs. -/
def SamePairs {α : Type} (single general : JoinConditions.Outcome (List α)) : Prop :=
  match single, general with
  | .raised _, .raised _ => True
  | .returned rows, .returned rows' => ∀ pair, pair ∈ rows ↔ pair ∈ rows'
  | _, _ => False

def Outcome.Same (single general : Outcome) : Prop :=
  match single, general with
  | .aborted, .aborted => True
  | .pairs rows, .pairs rows' => ∀ pair, pair ∈ rows ↔ pair ∈ rows'
  | _, _ => False

def SameRows (single general : RightSemiAntiJoin.Outcome) : Prop :=
  match single, general with
  | .raised _, .raised _ => True
  | .aborted, .aborted => True
  | .rowIds rows, .rowIds rows' => ∀ row, row ∈ rows ↔ row ∈ rows'
  | _, _ => False

section Agreement

open CudfInnerJoin in
/-- The inner join with the flag and the one without. -/
def InnerAgrees {V : Type} [LinearOrder V] (input : JoinInput V) : Prop :=
  ∀ cudf : Cudf V, SamePairs (innerJoin cudf { input with uniqueBuildKeys := true })
    (innerJoin cudf { input with uniqueBuildKeys := false })

variable (join : Join) (width : KeyWidth) (modes : List Nat) (positive : 0 < join.buildRows)
variable (table : State Word)

/-- The probe rows that the single match flags are those with a pair in the general path. -/
def SemiAgrees : Prop :=
  ∀ (single : SemiMarkJoin.Execution) (found : Nat → List Nat), single.table = table →
    single.Runs join width modes positive →
    (∀ p < join.probeRows, Walked false join table width modes positive p (found p)) →
    ∀ p < join.probeRows, single.flag p = true ↔ ∃ slot, slot ∈ found p

/-- The walk of every probe row over the table ends. -/
def Ends (unique : Bool) : Prop :=
  ∀ p < join.probeRows, ∃ found, Walked unique join table width modes positive p found

/-- Either path ends if the other one does, and they return the same. -/
def RightAgrees : Prop :=
  (Ends join width modes positive table true ↔ Ends join width modes positive table false) ∧
  ∀ single general : Execution, single.Runs true join table width modes positive →
    general.Runs false join table width modes positive →
    ∀ assertions, (right assertions true join table single).Same
      (right assertions false join table general)

/-- The pairs of a probe row and a slot that it marks. -/
def MarksAgree : Prop :=
  (Ends join width modes positive table true ↔ Ends join width modes positive table false) ∧
  ∀ single general : Nat → List Nat,
    (∀ p < join.probeRows, Walked true join table width modes positive p (single p)) →
    (∀ p < join.probeRows, Walked false join table width modes positive p (general p)) →
    ∀ p < join.probeRows, ∀ slot, slot ∈ single p ↔ slot ∈ general p

/-- What the scan returns after the probes. -/
def ScansAgree : Prop :=
  ∀ (mode : JoinMode) (single general : RightSemiAntiJoin.Execution),
    single.table = table → general.table = table →
    single.Runs true mode join width modes positive →
    general.Runs false mode join width modes positive →
    ∀ assertions, SameRows (RightSemiAntiJoin.scan assertions mode join single)
      (RightSemiAntiJoin.scan assertions mode join general)

/-- No probe row comes by two slots that match. -/
def OneMatch : Prop :=
  ∀ p < join.probeRows, ∀ found, Walked false join table width modes positive p found →
    found.length ≤ 1

/-- The row ids that the probes read are not changed by the conversion to `int`. -/
def Narrow : Prop :=
  ∀ p < join.probeRows, ∀ found, Walked false join table width modes positive p found →
    ∀ slot ∈ found, narrow (table.cells slot join.numKeys) = table.cells slot join.numKeys

/-- No thread of a probe row with a match shares its entry of `offset_each_thread`. -/
def OwnEntries : Prop :=
  ∀ found : Nat → List Nat,
    (∀ p < join.probeRows, Walked false join table width modes positive p (found p)) →
      Unshared BLOCK_THREADS ITEMS_PER_THREAD join.probeRows fun p => (found p).length

end Agreement

/-! ## The walks of the two paths -/

section Walks

variable {join : Join} {width : KeyWidth} {modes : List Nat} {positive : 0 < join.buildRows}
variable {table : State Word} {p : Nat} {found : List Nat}

/-- The start slot and the walk of a row that has one. -/
theorem walked_cases {unique : Bool}
    (walked : Walked unique join table width modes positive p found) :
    (startSlot (modes.count 0) (join.table width modes positive).htLen
        (join.probeWord width p) = none ∧ found = []) ∨
      ∃ slot fuel, startSlot (modes.count 0) (join.table width modes positive).htLen
          (join.probeWord width p) = some slot ∧ slot < (join.table width modes positive).htLen ∧
        probeWalk unique (join.table width modes positive).insertion table
          (fun x => localFound modes (table.cells x) (join.probeWord width p)) fuel slot =
            some found := by
  rw [Walked] at walked
  cases start : startSlot (modes.count 0) (join.table width modes positive).htLen
      (join.probeWord width p) with
  | none =>
      rw [start] at walked
      exact .inl ⟨rfl, walked⟩
  | some slot =>
      rw [start] at walked
      obtain ⟨fuel, ran⟩ := walked
      have inside := (join.table width modes positive).startSlot_lt start
      exact .inr ⟨slot, fuel, rfl, inside, ran⟩

theorem walked_unique {found' : List Nat}
    (walked : Walked false join table width modes positive p found)
    (walked' : Walked false join table width modes positive p found') : found = found' := by
  rcases walked_cases walked with ⟨none, rfl⟩ | ⟨slot, fuel, start, inside, ran⟩
  · rcases walked_cases walked' with ⟨-, rfl⟩ | ⟨slot, fuel, start, -, -⟩
    · rfl
    · cases none.symm.trans start
  · rcases walked_cases walked' with ⟨none, -⟩ | ⟨slot', fuel', start', -, ran'⟩
    · cases none.symm.trans start
    · obtain rfl := Option.some.inj (start.symm.trans start')
      rw [probeWalk, if_neg Bool.false_ne_true] at ran ran'
      exact walkAll_unique inside ran ran'

/-- The single match is the first of all matches. -/
theorem walked_head {first : List Nat}
    (walked : Walked false join table width modes positive p found)
    (single : Walked true join table width modes positive p first) :
    first = found.head?.toList := by
  rcases walked_cases walked with ⟨none, rfl⟩ | ⟨slot, fuel, start, inside, ran⟩
  · rcases walked_cases single with ⟨-, rfl⟩ | ⟨slot, fuel, start, -, -⟩
    · rfl
    · cases none.symm.trans start
  · rcases walked_cases single with ⟨none, -⟩ | ⟨slot', fuel', start', -, ran'⟩
    · cases none.symm.trans start
    · obtain rfl := Option.some.inj (start.symm.trans start')
      rw [probeWalk, if_neg Bool.false_ne_true] at ran
      rw [probeWalk, if_pos rfl] at ran'
      obtain ⟨hit, ended, rfl⟩ := Option.map_eq_some_iff.mp ran'
      rw [walkFirst_unique ended (walkFirst_of_walkAll ran)]

theorem walked_single (walked : Walked false join table width modes positive p found) :
    Walked true join table width modes positive p found.head?.toList := by
  rcases walked_cases walked with ⟨none, rfl⟩ | ⟨slot, fuel, start, -, ran⟩
  · rw [Walked, none]
    rfl
  · rw [probeWalk, if_neg Bool.false_ne_true] at ran
    rw [Walked, start]
    exact ⟨fuel, by rw [probeWalk, if_pos rfl, walkFirst_of_walkAll ran]; rfl⟩

/-- A walk meets different slots, all of them taken. -/
theorem walked_slots (walked : Walked false join table width modes positive p found) :
    found.Nodup ∧ ∀ slot ∈ found,
      looksEmpty (join.table width modes positive).insertion table slot = false := by
  rcases walked_cases walked with ⟨-, rfl⟩ | ⟨slot, fuel, -, inside, ran⟩
  · exact ⟨List.nodup_nil, fun slot member => absurd member List.not_mem_nil⟩
  · rw [probeWalk, if_neg Bool.false_ne_true] at ran
    obtain ⟨k, ends, rfl⟩ := walkAll_eq inside ran
    refine ⟨(trail_nodup ends).filter _, fun x member => ?_⟩
    obtain ⟨j, before, rfl⟩ := mem_trail.mp (List.mem_of_mem_filter member)
    exact ends.2 j before

theorem head_of_short {α : Type} {l : List α} (short : l.length ≤ 1) : l.head?.toList = l := by
  rcases l with - | ⟨a, - | ⟨b, l⟩⟩
  · rfl
  · rfl
  · simp at short

end Walks

/-! ## The row ids of a finished table -/

section RowIds

variable {join : Join} {width : KeyWidth} {modes : List Nat} {positive : 0 < join.buildRows}

/-- The row id in a taken slot is that of a row that has taken it. -/
theorem rowId_owner (built : Built (join.table width modes positive)) {slot : Nat}
    (taken : looksEmpty (join.table width modes positive).insertion built.state slot = false) :
    ∃ b < join.buildRows, (built.state.thread b).claimed = some slot ∧
      built.state.cells slot join.numKeys = BitVec.ofNat 64 b := by
  have inv := run_inv built.run
  have few : (join.table width modes positive).insertedRows ≤ join.buildRows := by
    rw [Build.insertedRows]
    split
    · exact Nat.le_refl _
    · exact Nat.zero_le _
  obtain ⟨row, inside, placed, -⟩ := owner_of_taken inv taken
  obtain ⟨x, done⟩ := built.finished row inside
  have written : join.numKeys < progress (join.table width modes positive).insertion
      (built.state.thread row) := by
    rw [done, progress]
    exact Nat.lt_succ_self _
  obtain ⟨b, held, same⟩ := run_owner built.run placed written
  refine ⟨b, Nat.lt_of_lt_of_le (inv.placed b slot held).1 few, held, ?_⟩
  rw [same]
  exact if_neg (Nat.lt_irrefl _)

/-- Different slots have different row ids. -/
theorem rowId_inj (built : Built (join.table width modes positive)) {slot slot' : Nat}
    (taken : looksEmpty (join.table width modes positive).insertion built.state slot = false)
    (taken' : looksEmpty (join.table width modes positive).insertion built.state slot' = false)
    (same : built.state.cells slot join.numKeys = built.state.cells slot' join.numKeys) :
    slot = slot' := by
  obtain ⟨b, inside, held, id⟩ := rowId_owner built taken
  obtain ⟨b', inside', held', id'⟩ := rowId_owner built taken'
  have rows := join.buildRows_lt
  rw [id, id'] at same
  have values := congrArg BitVec.toNat same
  rw [BitVec.toNat_ofNat, BitVec.toNat_ofNat, Nat.mod_eq_of_lt (by omega),
    Nat.mod_eq_of_lt (by omega)] at values
  subst values
  exact Option.some.inj (held.symm.trans held')

/-- Row ids below 2^31 are kept by an `int`. -/
theorem narrow_of_small {b : Nat} (small : b < 2 ^ 31) :
    narrow (BitVec.ofNat 64 b) = BitVec.ofNat 64 b := by
  have kept : (BitVec.ofNat 64 b).truncate 32 = BitVec.ofNat 32 b := by
    rw [BitVec.truncate_eq_setWidth, BitVec.setWidth_ofNat_of_le (by decide)]
  rw [narrow, kept]
  refine BitVec.eq_of_toInt_eq ?_
  have value (w : Nat) (wide : b < 2 ^ (w - 1)) (positive : 0 < w) :
      (BitVec.ofNat w b).toInt = b := by
    rw [BitVec.toInt_eq_toNat_of_lt, BitVec.toNat_ofNat, Nat.mod_eq_of_lt]
    · exact Nat.lt_of_lt_of_le wide (Nat.pow_le_pow_right Nat.two_pos (Nat.sub_le _ _))
    · rw [BitVec.toNat_ofNat]
      have double : 2 * 2 ^ (w - 1) = 2 ^ w := by
        rw [← Nat.pow_succ', Nat.succ_eq_add_one, Nat.sub_add_cancel positive]
      have below := Nat.mod_le b (2 ^ w)
      omega
  rw [BitVec.toInt_signExtend_of_le (by decide), value 32 (by omega) (by decide),
    value 64 (by omega) (by decide)]

theorem narrow_of_rows (built : Built (join.table width modes positive))
    (small : join.buildRows ≤ 2 ^ 31) : Narrow join width modes positive built.state := by
  intro p _ found walked slot member
  obtain ⟨b, inside, -, id⟩ := rowId_owner built ((walked_slots walked).2 slot member)
  rw [id]
  exact narrow_of_small (Nat.lt_of_lt_of_le inside small)

end RowIds

/-! ## The device joins -/

section Device

variable {join : Join} {width : KeyWidth} {modes : List Nat} {positive : 0 < join.buildRows}
variable {table : State Word}

/-- A row has a first match exactly if it has a match. -/
theorem semi_agrees (join : Join) (width : KeyWidth) (modes : List Nat)
    (positive : 0 < join.buildRows) (table : State Word) :
    SemiAgrees join width modes positive table := by
  rintro single found rfl runs walks p inside
  have walked := walks p inside
  have probed := runs.probed p inside
  suffices first : single.found p = (found p).head? by
    rw [SemiMarkJoin.Execution.flag, first, List.isSome_head?]
    cases found p <;> simp
  rcases walked_cases walked with ⟨none, nothing⟩ | ⟨slot, fuel, start, -, ran⟩
  · rw [none] at probed
    rw [probed, nothing]
    rfl
  · rw [start] at probed
    obtain ⟨fuel', ended⟩ := probed
    rw [probeWalk, if_neg Bool.false_ne_true] at ran
    exact walkFirst_unique ended (walkFirst_of_walkAll ran)

theorem ends_single (ends : Ends join width modes positive table false) :
    Ends join width modes positive table true := fun p inside => by
  obtain ⟨found, walked⟩ := ends p inside
  exact ⟨_, walked_single walked⟩

/-- A row marks the same slots on both paths exactly if it has one match at most. -/
theorem marks_agree_iff : MarksAgree join width modes positive table ↔
    (Ends join width modes positive table true → Ends join width modes positive table false ∧
      OneMatch join width modes positive table) := by
  constructor
  · rintro ⟨both, agree⟩ ends
    have ends := both.mp ends
    refine ⟨ends, fun p inside found walked => ?_⟩
    choose! general walks using ends
    obtain rfl := walked_unique walked (walks p inside)
    have same := agree (fun p => (general p).head?.toList) general
      (fun p inside => walked_single (walks p inside)) walks p inside
    have single : ∀ x ∈ general p, (general p).head? = some x := fun x member =>
      Option.mem_toList.mp ((same x).mpr member)
    have distinct := (walked_slots walked).1
    revert single distinct
    rcases general p with - | ⟨a, - | ⟨b, l⟩⟩
    · simp
    · simp
    · intro single distinct
      have equal : a = b := Option.some.inj (single b (by simp))
      simp [equal] at distinct
  · intro condition
    refine ⟨⟨fun ends => (condition ends).1, ends_single⟩,
      fun single general walks walks' p inside slot => ?_⟩
    have one := (condition fun p inside => ⟨_, walks p inside⟩).2
    rw [walked_head (walks' p inside) (walks p inside),
      head_of_short (one p inside _ (walks' p inside))]

/-- The matches of the threads are those of the probe rows. -/
theorem map_pair (execution : Execution) (p : Nat) :
    (matchesOf execution.matched p).map (execution.pair join table) =
      execution.pairsOf false join table p := by
  rw [matchesOf, List.map_map, Execution.pairsOf, Execution.matched]
  refine List.ext_getElem (by simp) fun k inside inside' => ?_
  rw [List.length_map] at inside'
  simp [Execution.pair, List.getElem?_eq_getElem inside']

theorem sized {execution : Execution} (counted : execution.Counted join) :
    Sized BLOCK_THREADS ITEMS_PER_THREAD join.probeRows execution.matched :=
  ⟨by decide, by decide, counted⟩

/-- The pairs in memory are those of the matches; on the general path for counters that do not
overflow and threads with entries of their own. -/
theorem right_pairs {unique : Bool} {execution : Execution}
    (runs : execution.Runs unique join table width modes positive)
    (fits : unique = false → execution.Counted join ∧
      Unshared BLOCK_THREADS ITEMS_PER_THREAD join.probeRows execution.matched) :
    ((List.range (execution.count unique join table)).map (perform execution.writes)).Perm
      (((List.range join.probeRows).flatMap (execution.pairsOf unique join table)).map some) := by
  cases unique with
  | true => exact tiles_flatMap_written (by decide) _ runs.blocks runs.writes
  | false =>
    obtain ⟨counted, unshared⟩ := fits rfl
    obtain ⟨members, places⟩ := (probe_bijective_iff (sized counted)).mpr unshared _ _ runs.blocks
      runs.stores
    have written : (execution.writes.map Prod.snd).Perm
        (List.range (execution.count false join table)) := by
      refine (runs.writes.map _).trans ?_
      rw [Execution.allWrites, if_neg Bool.false_ne_true, List.map_map]
      exact places
    refine (perform_perm written).trans (List.Perm.map _ ?_)
    refine (runs.writes.map _).trans ?_
    rw [Execution.allWrites, if_neg Bool.false_ne_true, List.map_map]
    have pairs := members.map (execution.pair join table)
    rw [List.map_map, List.map_flatMap] at pairs
    simp only [map_pair] at pairs
    exact pairs

/-- Rows whose walks end can be probed, with any order of the blocks and of the stores. -/
theorem exists_runs_of {unique : Bool} {found : Nat → List Nat} {order : List Nat}
    {stores : List (Nat × Nat)}
    (walks : ∀ p < join.probeRows, Walked unique join table width modes positive p (found p))
    (blocks : order.Perm (List.range (numTiles BLOCK_THREADS ITEMS_PER_THREAD join.probeRows)))
    (shuffled : stores.Perm (offsetStores BLOCK_THREADS ITEMS_PER_THREAD join.probeRows
      (fun p => (found p).length) order)) :
    ∃ execution : Execution, execution.found = found ∧ execution.order = order ∧
      execution.stores = stores ∧
        execution.writes = execution.allWrites unique join table ∧
          execution.Runs unique join table width modes positive := by
  let unwritten : Execution := ⟨found, order, stores, []⟩
  exact ⟨{ unwritten with writes := unwritten.allWrites unique join table }, rfl, rfl, rfl, rfl,
    walks, blocks, shuffled, List.Perm.refl _⟩

theorem exists_runs {unique : Bool} {found : Nat → List Nat}
    (walks : ∀ p < join.probeRows, Walked unique join table width modes positive p (found p)) :
    ∃ execution : Execution, execution.found = found ∧
      execution.Runs unique join table width modes positive := by
  obtain ⟨execution, same, -, -, -, runs⟩ :=
    exists_runs_of walks (List.Perm.refl _) (List.Perm.refl _)
  exact ⟨execution, same, runs⟩

theorem right_eq {assertions unique : Bool} {execution : Execution}
    (fits : unique = false → execution.Counted join) :
    right assertions unique join table execution =
      if join.probeRows = 0 ∨ join.buildRows = 0 then .pairs []
      else if assertions = true ∧ execution.count unique join table = 0 then .aborted
      else .pairs
        ((List.range (execution.count unique join table)).map (perform execution.writes)) := by
  rw [right]
  split
  · rfl
  · rw [if_neg fun overflow => overflow.2 (fits overflow.1)]

theorem right_ok {unique : Bool} {execution : Execution} (positive : 0 < join.buildRows)
    (inside : 0 < join.probeRows) (fits : unique = false → execution.Counted join) :
    right false unique join table execution =
      .pairs ((List.range (execution.count unique join table)).map (perform execution.writes)) := by
  rw [right_eq fits, if_neg (by omega), if_neg (by simp)]

theorem mem_pairs {unique : Bool} {execution : Execution}
    (runs : execution.Runs unique join table width modes positive)
    (fits : unique = false → execution.Counted join ∧
      Unshared BLOCK_THREADS ITEMS_PER_THREAD join.probeRows execution.matched)
    {p : Nat} {id : Word} :
    some (p, id) ∈ (List.range (execution.count unique join table)).map
        (perform execution.writes) ↔
      p < join.probeRows ∧ ∃ slot ∈ execution.found p,
        (if unique then narrow (table.cells slot join.numKeys)
          else table.cells slot join.numKeys) = id := by
  rw [(right_pairs runs fits).mem_iff]
  simp only [List.mem_map, List.mem_flatMap, List.mem_range, Execution.pairsOf]
  constructor
  · rintro ⟨pair, ⟨q, inside, slot, member, rfl⟩, same⟩
    simp only [Option.some.injEq, Prod.mk.injEq] at same
    obtain ⟨rfl, rfl⟩ := same
    exact ⟨inside, slot, member, rfl⟩
  · rintro ⟨inside, slot, member, rfl⟩
    exact ⟨_, ⟨p, inside, slot, member, rfl⟩, rfl⟩

/-- Where the paths agree the counters of the general one do not overflow. -/
theorem counted_of_same {single general : Execution} (positive : 0 < join.buildRows)
    (inside : 0 < join.probeRows)
    (same : (right false true join table single).Same (right false false join table general)) :
    general.Counted join := by
  by_contra overflow
  rw [right_ok positive inside (fun flag => Bool.noConfusion flag), right,
    if_neg (by omega), if_pos ⟨rfl, overflow⟩] at same
  exact same

/-- Where the paths agree in every run, the general one leaves no place unwritten, and so no
thread with a match shares its entry. -/
theorem unshared_of_agree {found : Nat → List Nat} (inside : 0 < join.probeRows)
    (walks : ∀ p < join.probeRows, Walked false join table width modes positive p (found p))
    (agree : ∀ single general : Execution, single.Runs true join table width modes positive →
      general.Runs false join table width modes positive → ∀ assertions,
        (right assertions true join table single).Same
          (right assertions false join table general)) :
    Unshared BLOCK_THREADS ITEMS_PER_THREAD join.probeRows fun p => (found p).length := by
  obtain ⟨single, -, singleRuns⟩ := exists_runs fun p inside => walked_single (walks p inside)
  obtain ⟨general, rfl, generalRuns⟩ := exists_runs walks
  have counted := counted_of_same positive inside
    (agree single general singleRuns generalRuns false)
  refine (probe_bijective_iff (sized counted)).mp fun order stores blocks shuffled => ?_
  obtain ⟨execution, same, rfl, rfl, written, runs⟩ := exists_runs_of walks blocks shuffled
  have matched : execution.matched = general.matched := by
    funext p
    rw [Execution.matched, Execution.matched, same]
  have counted' : execution.Counted join := by
    rw [Execution.Counted, matched]
    exact counted
  have launched : Launched BLOCK_THREADS ITEMS_PER_THREAD join.probeRows execution.matched
      execution.order := ⟨sized counted', blocks⟩
  have rows := agree single execution singleRuns runs false
  rw [right_ok positive inside (fun flag => Bool.noConfusion flag),
    right_ok positive inside (fun _ => counted')] at rows
  -- no place of the single match is left unwritten
  have all : ∀ place < execution.count false join table, perform execution.writes place ≠ none := by
    intro place below nothing
    have there := (rows none).mpr (List.mem_map.mpr ⟨place, List.mem_range.mpr below, nothing⟩)
    rw [(right_pairs singleRuns fun flag => Bool.noConfusion flag).mem_iff] at there
    simp at there
  have members := @probeWrites_members BLOCK_THREADS ITEMS_PER_THREAD join.probeRows
    execution.matched execution.stores (sized counted')
  have length : execution.writes.length = execution.count false join table := by
    rw [written, Execution.allWrites, if_neg Bool.false_ne_true, List.length_map, Execution.count,
      if_neg Bool.false_ne_true, launched.total_length, ← members.length_eq, List.length_map]
  rw [← length] at all
  have places := places_perm all
  rw [length, written, Execution.allWrites, if_neg Bool.false_ne_true, List.map_map] at places
  have result : Bijective ((List.range join.probeRows).flatMap (matchesOf execution.matched))
      (countTotal BLOCK_THREADS ITEMS_PER_THREAD join.probeRows execution.matched execution.order)
      (probeWrites BLOCK_THREADS ITEMS_PER_THREAD join.probeRows execution.matched
        execution.stores) := ⟨members, places⟩
  rw [matched] at result
  exact result

/-- The pairs of a RIGHT join are the same exactly if the general walks end with those for one
match, no probe row has two matches, no matched row id needs more than an `int`, and no thread
with a match shares its entry. -/
theorem right_agrees_iff (built : Built (join.table width modes positive)) :
    RightAgrees join width modes positive built.state ↔
      (Ends join width modes positive built.state true →
        Ends join width modes positive built.state false ∧
          OneMatch join width modes positive built.state ∧
            Narrow join width modes positive built.state ∧
              OwnEntries join width modes positive built.state) := by
  constructor
  · rintro ⟨both, agree⟩ ends
    have ends := both.mp ends
    refine ⟨ends, ?_⟩
    choose! all walks using ends
    obtain ⟨general, rfl, generalRuns⟩ := exists_runs walks
    obtain ⟨single, heads, singleRuns⟩ := exists_runs fun p inside =>
      walked_single (walks p inside)
    have own (some : 0 < join.probeRows) : general.Counted join ∧
        Unshared BLOCK_THREADS ITEMS_PER_THREAD join.probeRows general.matched :=
      ⟨counted_of_same positive some (agree single general singleRuns generalRuns false),
        unshared_of_agree some walks agree⟩
    -- every match is the first one, and its row id is kept
    have first (p : Nat) (inside : p < join.probeRows) (slot : Nat)
        (member : slot ∈ general.found p) : ∃ first, (general.found p).head? = some first ∧
          narrow (built.state.cells first join.numKeys) = built.state.cells slot join.numKeys := by
      have some : 0 < join.probeRows := Nat.zero_lt_of_lt inside
      have same := agree single general singleRuns generalRuns false
      rw [right_ok positive some (fun flag => Bool.noConfusion flag),
        right_ok positive some fun _ => (own some).1] at same
      have there := (same _).mpr
        ((mem_pairs generalRuns fun _ => own some).mpr ⟨inside, slot, member, rfl⟩)
      obtain ⟨-, first, hit, id⟩ :=
        (mem_pairs singleRuns fun flag => Bool.noConfusion flag).mp there
      rw [heads] at hit
      exact ⟨first, Option.mem_toList.mp hit, id⟩
    have one (p : Nat) (inside : p < join.probeRows) : (general.found p).length ≤ 1 := by
      obtain ⟨distinct, taken⟩ := walked_slots (walks p inside)
      have ids := first p inside
      revert ids distinct taken
      rcases general.found p with - | ⟨a, - | ⟨b, l⟩⟩
      · simp
      · simp
      · intro distinct taken ids
        obtain ⟨x, hx, idx⟩ := ids a (by simp)
        obtain ⟨y, hy, idy⟩ := ids b (by simp)
        obtain rfl := Option.some.inj (hx.symm.trans hy)
        have equal := rowId_inj built (taken a (by simp)) (taken b (by simp)) (idx.symm.trans idy)
        simp [equal] at distinct
    refine ⟨fun p inside found walked => ?_, fun p inside found walked slot member => ?_,
      fun found walks' => ?_⟩
    · obtain rfl := walked_unique walked (walks p inside)
      exact one p inside
    · obtain rfl := walked_unique walked (walks p inside)
      obtain ⟨head, found, id⟩ := first p inside slot member
      have short := head_of_short (one p inside)
      rw [found] at short
      rw [← short, Option.mem_toList, Option.some.injEq] at member
      rwa [member] at id
    · intro block known t inside more block' known' t' inside' here index
      have some : 0 < join.probeRows := Nat.zero_lt_of_lt (of_decide_eq_true here)
      exact unshared_of_agree some walks' agree block known t inside more block' known' t' inside'
        here index
  · intro condition
    refine ⟨⟨fun ends => (condition ends).1, ends_single⟩,
      fun single general singleRuns generalRuns assertions => ?_⟩
    obtain ⟨-, one, kept, own⟩ := condition fun p inside => ⟨_, singleRuns.probed p inside⟩
    have unshared := own general.found generalRuns.probed
    have counted : general.Counted join := fun block known =>
      (blockMatches_le (by decide) (fun p inside => one p inside _ (generalRuns.probed p inside))
        known).trans_lt (by decide)
    have same : (List.range join.probeRows).flatMap (single.pairsOf true join built.state) =
        (List.range join.probeRows).flatMap (general.pairsOf false join built.state) := by
      refine List.flatMap_congr fun p member => ?_
      have inside := List.mem_range.mp member
      have walked := generalRuns.probed p inside
      rw [Execution.pairsOf, Execution.pairsOf, walked_head walked (singleRuns.probed p inside),
        head_of_short (one p inside _ walked)]
      refine List.map_congr_left fun slot hit => ?_
      rw [if_pos rfl, if_neg Bool.false_ne_true, kept p inside _ walked slot hit]
    have pairs := right_pairs singleRuns fun flag => Bool.noConfusion flag
    rw [same] at pairs
    have rows := pairs.trans (right_pairs generalRuns fun _ => ⟨counted, unshared⟩).symm
    have counts := rows.length_eq
    rw [List.length_map, List.length_map, List.length_range, List.length_range] at counts
    rw [right_eq fun flag => Bool.noConfusion flag, right_eq fun _ => counted, counts]
    split
    · exact fun pair => Iff.rfl
    · split
      · trivial
      · rw [counts] at rows
        exact fun pair => rows.mem_iff

/-- With one match at most for every probe row the scans return the same build rows. -/
theorem scans_agree (one : OneMatch join width modes positive table) :
    ScansAgree join width modes positive table := by
  rintro mode single general rfl sameTable singleRuns generalRuns assertions
  have marks (p : Nat) (inside : p < join.probeRows) : single.marks p = general.marks p := by
    have walked := generalRuns.probed p inside
    rw [sameTable] at walked
    rw [walked_head walked (singleRuns.probed p inside), head_of_short (one p inside _ walked)]
  have flags (x : Nat) : single.flag join x ≠ EMPTY ↔ general.flag join x ≠ EMPTY := by
    rw [RightSemiAntiJoin.flag_ne_iff singleRuns, RightSemiAntiJoin.flag_ne_iff generalRuns]
    refine exists_congr fun p => and_congr_right fun inside => ?_
    rw [marks p inside]
  have ids : single.rowId join = general.rowId join := by
    funext x
    rw [RightSemiAntiJoin.Execution.rowId, RightSemiAntiJoin.Execution.rowId, sameTable]
  have selected : single.selected mode join = general.selected mode join := by
    funext x
    have flag := flags x
    have unflagged := not_iff_not.mpr flag
    rw [ne_eq, ne_eq, not_not, not_not] at unflagged
    cases mode with
    | rightSemi => exact decide_eq_decide.mpr flag
    | rightAnti =>
        refine decide_eq_decide.mpr ?_
        rw [unflagged, ids]
  have rows := (RightSemiAntiJoin.scanned_perm singleRuns)
  rw [selected, ids] at rows
  have rows := rows.trans (RightSemiAntiJoin.scanned_perm generalRuns).symm
  have counts := rows.length_eq
  rw [List.length_map, List.length_map, List.length_range, List.length_range] at counts
  rw [RightSemiAntiJoin.scan, RightSemiAntiJoin.scan, counts]
  cases join.accept with
  | error message => trivial
  | ok accepted =>
      simp only
      split
      · exact fun row => Iff.rfl
      · split
        · trivial
        · rw [counts] at rows
          exact fun row => rows.mem_iff

end Device

/-! ## When a probe row has one match at most -/

section Matches

variable {join : Join} {width : KeyWidth} {modes : List Nat} {positive : 0 < join.buildRows}

/-- No two build rows that are not taken for empty slots fit one probe row. -/
def SingleFit (join : Join) (width : KeyWidth) : Prop :=
  ∀ p < join.probeRows, ∀ b < join.buildRows, ∀ b' < join.buildRows,
    FitsReal join width p b → FitsReal join width p b' → b = b'

/-- The matches of a probe row are the slots of the rows that fit it. -/
theorem mem_walked (accepted : join.accept = .ok (width, modes)) (hash : modes.count 0 ≤ 2)
    (built : Built (join.table width modes positive)) (clean : Exclusive built.state)
    {p : Nat} {found : List Nat}
    (walked : Walked false join built.state width modes positive p found) (slot : Nat) :
    slot ∈ found ↔ ∃ b < join.buildRows, (built.state.thread b).claimed = some slot ∧
      FitsReal join width p b := by
  have probing := RightSemiAntiJoin.probing_of_hash accepted hash positive
  have few := RightSemiAntiJoin.few_of_hash accepted hash
  simp only [RightSemiAntiJoin.fitsReal_iff (accept_eq accepted).2 positive]
  rcases walked_cases walked with ⟨none, -⟩ | ⟨start, fuel, known, -, ran⟩
  · obtain ⟨start, known⟩ := (join.table width modes positive).startSlot_some few
      (join.table width modes positive).htLen (join.probeWord width p)
    cases none.symm.trans known
  · rw [probeWalk, if_neg Bool.false_ne_true] at ran
    exact mem_walkAll built probing (.inr clean) known ran slot

/-- In a table without a slot that was taken twice, no probe row has two matches exactly if no
two rows fit it. -/
theorem oneMatch_iff (accepted : join.accept = .ok (width, modes)) (hash : modes.count 0 ≤ 2)
    (built : Built (join.table width modes positive)) (clean : Exclusive built.state)
    (ends : Ends join width modes positive built.state false) :
    OneMatch join width modes positive built.state ↔ SingleFit join width := by
  have inserted : (join.table width modes positive).insertedRows = join.buildRows :=
    (RightSemiAntiJoin.probing_of_hash accepted hash positive).inserted
  constructor
  · intro one p inside b hb b' hb' fits fits'
    obtain ⟨found, walked⟩ := ends p inside
    have members := mem_walked accepted hash built clean walked
    obtain ⟨x, placed⟩ := exists_slot built (inserted.symm ▸ hb)
    obtain ⟨x', placed'⟩ := exists_slot built (inserted.symm ▸ hb')
    have hit := (members x).mpr ⟨b, hb, placed, fits⟩
    have hit' := (members x').mpr ⟨b', hb', placed', fits'⟩
    have short := head_of_short (one p inside found walked)
    rw [← short, Option.mem_toList] at hit hit'
    obtain rfl := Option.some.inj (hit.symm.trans hit')
    exact clean b b' x placed placed'
  · intro single p inside found walked
    have members := mem_walked accepted hash built clean walked
    have distinct := (walked_slots walked).1
    revert members distinct
    rcases found with - | ⟨x, - | ⟨y, rest⟩⟩
    · simp
    · simp
    · intro members distinct
      obtain ⟨b, hb, placed, fits⟩ := (members x).mp (by simp)
      obtain ⟨b', hb', placed', fits'⟩ := (members y).mp (by simp)
      obtain rfl := single p inside b hb b' hb' fits fits'
      have equal : x = y := Option.some.inj (placed.symm.trans placed')
      simp [equal] at distinct

/-- The build key words of a condition differ from row to row. -/
def DistinctKeys (join : Join) (width : KeyWidth) (condition : Condition) : Prop :=
  ∀ b < join.buildRows, ∀ b' < join.buildRows,
    readKey width condition.build b = readKey width condition.build b' → b = b'

/-- One unique column that is compared for equality is enough. -/
theorem singleFit_of_unique {condition : Condition} (member : condition ∈ join.conditions)
    (equality : condition.comparison.isEquality = true)
    (distinct : DistinctKeys join width condition) : SingleFit join width := by
  intro p _ b hb b' hb' fits fits'
  have word {b : Nat} (fits : FitsReal join width p b) :
      readKey width condition.build b = readKey width condition.probe p := by
    have all := List.all_eq_true.mp fits.2 condition member
    simpa [Condition.fits, equality] using all
  exact distinct b hb b' hb' ((word fits).trans (word fits').symm)

end Matches

/-! ## The INNER join -/

section Inner

open CudfInnerJoin

variable {V : Type} [LinearOrder V] {input : JoinInput V}

open Classical in
/-- A cudf whose distinct hash join returns a row that is not there for build rows that are
equal. -/
noncomputable def straying (V : Type) [LinearOrder V] : Cudf V :=
  { strictCudf V with
    distinctHashJoin := fun nulls build probe =>
      if DistinctRows build then .ok (selectedPairs probe build (rowsEqual nulls probe build))
      else .ok [(probe.numRows, 0)]
    distinctHashJoin_ok := fun nulls build probe _ => by
      by_cases distinct : DistinctRows build
      · exact ⟨_, if_pos distinct, fun _ => List.Perm.refl _⟩
      · exact ⟨_, if_neg distinct, fun h => absurd h distinct⟩ }

theorem straying_stray (accepted : Accepted input) (only : onlyEqualities input = true)
    (unique : input.uniqueBuildKeys = true) (probeRows : input.probeRows ≠ 0)
    (equal : ¬ DistinctRows (buildTable input)) :
    innerJoin (straying V) input = .returned [(input.probeRows, 0)] := by
  obtain ⟨some, build, probe, keys⟩ := accepted
  have buildRows : input.buildRows ≠ 0 := by
    intro zero
    refine equal fun r hr => ?_
    simp [buildTable, zero] at hr
  have castable := keys.resolve_left buildRows |>.resolve_left probeRows
  rw [if_pos only] at castable
  rw [innerJoin, if_neg some, if_neg (by omega), if_pos only, cudfHashInnerJoin,
    if_neg (by simp [buildRows, probeRows]), mapM_castKey_ok castable]
  simp only [bind, Except.bind, unique, if_true, straying, List.map_map, Function.comp_def]
  rw [if_neg (mt distinctRows_keys.mp equal)]
  rfl

/-- The two inner joins return the same pairs, with every cudf, exactly if there is at most one
predicate and the build keys are distinct where the distinct hash join is used. -/
theorem inner_agrees_iff (input : JoinInput V) : InnerAgrees input ↔
    (Accepted input →
      OnePredicate input ∧ DistinctWhereUsed { input with uniqueBuildKeys := true }) := by
  constructor
  · intro agree accepted
    have one : OnePredicate input := by
      by_contra several
      have ran : innerJoin (straying V) { input with uniqueBuildKeys := true } = .undefined :=
        innerJoin_several (straying V) accepted several
      have same := agree (straying V)
      rw [ran] at same
      exact same
    refine ⟨one, fun only unique probeRows => ?_⟩
    by_contra equal
    have stray : innerJoin (straying V) { input with uniqueBuildKeys := true } =
        .returned [(input.probeRows, 0)] :=
      straying_stray (show Accepted { input with uniqueBuildKeys := true } from accepted) only
        unique probeRows equal
    have same := agree (straying V)
    obtain ⟨pairs, ran, exact⟩ := innerJoin_ok (straying V)
      (show Accepted { input with uniqueBuildKeys := false } from accepted) one
    rw [stray, ran] at same
    have there := (same (input.probeRows, 0)).mp (List.mem_singleton.mpr rfl)
    rw [(exact fun _ unique => by cases unique).mem_iff, requested, List.mem_filter,
      JoinConditions.mem_rowPairs] at there
    exact absurd there.1.1 (Nat.lt_irrefl _)
  · intro distinct cudf
    by_cases accepted : Accepted input
    · obtain ⟨one, distinct⟩ := distinct accepted
      obtain ⟨single, ran, exact⟩ := innerJoin_ok cudf
        (show Accepted { input with uniqueBuildKeys := true } from accepted) one
      obtain ⟨general, ran', exact'⟩ := innerJoin_ok cudf
        (show Accepted { input with uniqueBuildKeys := false } from accepted) one
      rw [ran, ran']
      intro pair
      rw [(exact distinct).mem_iff, (exact' fun _ unique => by cases unique).mem_iff]
      exact Iff.rfl
    · obtain ⟨e, failed⟩ : ∃ e, innerJoin cudf { input with uniqueBuildKeys := true } = .raised e :=
        innerJoin_error accepted
      obtain ⟨e', failed'⟩ :
          ∃ e, innerJoin cudf { input with uniqueBuildKeys := false } = .raised e :=
        innerJoin_error accepted
      rw [failed, failed']
      trivial

end Inner

/-! ## All join types -/

section All

/-- Up to 2^34 probe rows no two threads share an entry. -/
theorem unshared_of_rows {rows : Nat} {matched : Nat → Nat} (few : rows ≤ 2 ^ 34) :
    Unshared BLOCK_THREADS ITEMS_PER_THREAD rows matched := by
  refine unshared_of_narrow ?_
  unfold numTiles BLOCK_THREADS ITEMS_PER_THREAD
  omega

/-- The single-match paths return what the general ones do: for INNER exactly if at most one
condition is a predicate and the build keys are distinct where it matters, for SEMI always, for
RIGHT exactly if the general walks end with those for one match, no probe row has two matches, the
row ids fit an `int` and no thread with a match shares its entry; the same, as far as it concerns
the walks, for the marks of RIGHT_SEMI and RIGHT_ANTI, whose scans then return the same rows. -/
theorem single_match_agrees_iff {V : Type} [LinearOrder V] (input : CudfInnerJoin.JoinInput V)
    (join : Join) (width : KeyWidth) (modes : List Nat) (positive : 0 < join.buildRows)
    (accepted : join.accept = .ok (width, modes))
    (built : Built (join.table width modes positive)) :
    (InnerAgrees input ↔ (CudfInnerJoin.Accepted input → CudfInnerJoin.OnePredicate input ∧
      CudfInnerJoin.DistinctWhereUsed { input with uniqueBuildKeys := true })) ∧
    SemiAgrees join width modes positive built.state ∧
    (RightAgrees join width modes positive built.state ↔
      (Ends join width modes positive built.state true →
        Ends join width modes positive built.state false ∧
          OneMatch join width modes positive built.state ∧
            Narrow join width modes positive built.state ∧
              OwnEntries join width modes positive built.state)) ∧
    (MarksAgree join width modes positive built.state ↔
      (Ends join width modes positive built.state true →
        Ends join width modes positive built.state false ∧
          OneMatch join width modes positive built.state)) ∧
    (OneMatch join width modes positive built.state →
      ScansAgree join width modes positive built.state) ∧
    (modes.count 0 ≤ 2 → Exclusive built.state →
      Ends join width modes positive built.state false →
        (OneMatch join width modes positive built.state ↔ SingleFit join width)) ∧
    (join.buildRows ≤ 2 ^ 31 → Narrow join width modes positive built.state) ∧
    (join.probeRows ≤ 2 ^ 34 → OwnEntries join width modes positive built.state) :=
  ⟨inner_agrees_iff input, semi_agrees join width modes positive built.state,
    right_agrees_iff built, marks_agree_iff, scans_agree,
    fun hash clean ends => oneMatch_iff accepted hash built clean ends, narrow_of_rows built,
    fun few _ _ => unshared_of_rows few⟩

/-- Two build rows with equal first keys; the second column is unique. The probe row has the
same first key and the second key `second`. -/
def twoKeys (second : UInt8) : Join where
  planned := [⟨.equal, .INT64, fun _ => 0, fun _ => 0, fun _ _ => true, fun _ _ => true⟩,
    ⟨.notEqual, .INT64, fun _ => second, fun i => if i < 8 then 0 else 1, fun _ _ => true,
      fun _ _ => true⟩]
  probeRows := 1
  buildRows := 2
  nonempty := by simp
  probeRows_lt := one_row_lt
  buildRows_lt := two_rows_lt

theorem twoKeys_accept (second : UInt8) : (twoKeys second).accept = .ok (.int64, [0, 1]) := rfl

theorem lt_two {b : Nat} (inside : b < 2) : b = 0 ∨ b = 1 := by
  omega

theorem twoKeys_real (second : UInt8) (b : Nat) (inside : b < 2) :
    (twoKeys second).buildWord .int64 b 0 ≠ EMPTY := by
  have zero : (twoKeys second).buildWord .int64 b 0 =
      readKey .int64 (fun _ => 0) b := rfl
  rw [zero]
  rcases lt_two inside with rfl | rfl <;> decide

theorem twoKeys_built (second : UInt8) : ∃ built : Built ((twoKeys second).table .int64 [0, 1]
    Nat.two_pos), Exclusive built.state ∧ Ends (twoKeys second) .int64 [0, 1] Nat.two_pos
      built.state false := by
  have roomy : ((twoKeys second).table .int64 [0, 1] Nat.two_pos).insertion.Roomy :=
    Build.roomy_of_coprime (by change Nat.Coprime STRIDE 2; decide)
  obtain ⟨schedule, s, run, finished⟩ := exists_finished (ends_iff_roomy.mpr roomy).1
  refine ⟨⟨schedule, s, run, finished⟩, ?_, ?_⟩
  · refine exclusive_of_real (run_inv run) fun row inside => ?_
    exact (real_iff Nat.two_pos).mpr (twoKeys_real second row inside)
  · intro p _
    exact RightSemiAntiJoin.exists_walked run roomy false p

/-- With the second key of one of the build rows there is one match. -/
theorem two_keys_agree : ∃ built : Built ((twoKeys 0).table .int64 [0, 1] Nat.two_pos),
    RightAgrees (twoKeys 0) .int64 [0, 1] Nat.two_pos built.state ∧
      ScansAgree (twoKeys 0) .int64 [0, 1] Nat.two_pos built.state := by
  obtain ⟨built, clean, ends⟩ := twoKeys_built 0
  obtain ⟨-, -, right, -, scans, matches', narrow, own⟩ := single_match_agrees_iff
    (CudfInnerJoin.singleRows .equal (some 1) (some 1)) (twoKeys 0) .int64 [0, 1] Nat.two_pos
    (twoKeys_accept 0) built
  have unmatched : (twoKeys 0).Fits .int64 0 0 = false := by decide
  have single : SingleFit (twoKeys 0) .int64 := by
    have last (b : Nat) (inside : b < 2) (fits : FitsReal (twoKeys 0) .int64 0 b) : b = 1 := by
      refine (lt_two inside).resolve_left ?_
      rintro rfl
      exact Bool.noConfusion (unmatched.symm.trans fits.2)
    intro p one b hb b' hb' fits fits'
    obtain rfl : p = 0 := Nat.lt_one_iff.mp one
    rw [last b hb fits, last b' hb' fits']
  have one := (matches' (by decide) clean ends).mpr single
  exact ⟨built, right.mpr fun _ => ⟨ends, one, narrow (by decide), own (by decide)⟩, scans one⟩

/-- A unique column that is compared by an inequality sets the flag, and of two matching build
rows only the first is returned. -/
theorem unique_inequality_key_loses_match :
    ¬ ∀ (join : Join) (isUnique : List Bool) (width : KeyWidth) (modes : List Nat)
      (positive : 0 < join.buildRows), join.accept = .ok (width, modes) →
      isUnique.length = join.numKeys → uniqueBuildKeys isUnique = true →
      (∀ (n : Nat) condition, isUnique[n]? = some true → join.conditions[n]? = some condition →
        DistinctKeys join width condition) →
      ∀ built : Built (join.table width modes positive),
        Ends join width modes positive built.state false →
          RightAgrees join width modes positive built.state := by
  intro agree
  obtain ⟨built, clean, ends⟩ := twoKeys_built 2
  have right := agree (twoKeys 2) [false, true] .int64 [0, 1] Nat.two_pos (twoKeys_accept 2) rfl rfl
    (fun n condition unique here => ?_) built ends
  · have one := ((right_agrees_iff built).mp right (ends_single ends)).2.1
    have single := (oneMatch_iff (twoKeys_accept 2) (by decide) built clean ends).mp one
    have fits (b : Nat) (inside : b < 2) : FitsReal (twoKeys 2) .int64 0 b := by
      refine ⟨twoKeys_real 2 b inside, ?_⟩
      rcases lt_two inside with rfl | rfl <;> decide
    exact Nat.zero_ne_one (single 0 Nat.one_pos 0 Nat.two_pos 1 Nat.one_lt_two
      (fits 0 Nat.two_pos) (fits 1 Nat.one_lt_two))
  · have second : n = 1 := by
      rcases n with - | - | n
      · simp at unique
      · rfl
      · simp at unique
    subst second
    obtain rfl := Option.some.inj here
    intro b hb b' hb' same
    revert same
    rcases lt_two hb with rfl | rfl <;> rcases lt_two hb' with rfl | rfl <;> decide

end All

end UniqueBuildKeys
