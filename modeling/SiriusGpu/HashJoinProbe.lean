import SiriusGpu.HashTableBuild
import SiriusGpu.JoinConditions
import Mathlib.Data.Nat.Digits.Defs

/-!
# The keys and the table of a hash join

What the host code accepts of a list of join conditions, the words that the kernels
read of the key columns, and what a finished table holds of the build rows.

The type of the first key alone chooses the width in which all keys are read. The key
columns are taken as the device memory from their data pointers on, and as free of
NULLs. Equality of keys of further types is given with the condition.
-/

namespace HashJoinProbe

open HashTableBuild JoinConditions OpenAddressing

inductive KeyType where
  | INT32
  | INT64
  | FLOAT64
  | other (id : Nat)
  deriving DecidableEq

/-- The template parameter of the kernels. -/
inductive KeyWidth where
  | int32
  | int64

section Bytes

abbrev Memory := Nat → UInt8

def littleEndian (memory : Memory) (first size : Nat) : Nat :=
  Nat.ofDigits 256 ((List.range size).map fun i => (memory (first + i)).toNat)

def bits32 (memory : Memory) (row : Nat) : BitVec 32 :=
  BitVec.ofNat 32 (littleEndian memory (4 * row) 4)

def bits64 (memory : Memory) (row : Nat) : BitVec 64 :=
  BitVec.ofNat 64 (littleEndian memory (8 * row) 8)

/-- A key as the kernels read it; an `int32_t` is extended with its sign. -/
def readKey (width : KeyWidth) (memory : Memory) (row : Nat) : Word :=
  match width with
  | .int32 => (bits32 memory row).signExtend 64
  | .int64 => bits64 memory row

/-- Whether the bits of two doubles are equal numbers, the zeros being equal and all NaNs. -/
def doubleEq (x y : BitVec 64) : Bool :=
  let magnitude (z : BitVec 64) := z &&& 0x7FFFFFFFFFFFFFFF
  let isNan (z : BitVec 64) := 0x7FF0000000000000 < magnitude z
  x = y ∨ (magnitude x = 0 ∧ magnitude y = 0) ∨ (isNan x ∧ isNan y)

end Bytes

/-- A join condition with its key columns on both sides. -/
structure Condition where
  comparison : ComparisonType
  type : KeyType
  probe : Memory
  build : Memory
  otherSame : Nat → Nat → Bool
  ordered : Nat → Nat → Bool

/-- The two keys are equal. -/
def Condition.same (condition : Condition) (p b : Nat) : Bool :=
  match condition.type with
  | .INT32 => bits32 condition.probe p = bits32 condition.build b
  | .INT64 => bits64 condition.probe p = bits64 condition.build b
  | .FLOAT64 => doubleEq (bits64 condition.probe p) (bits64 condition.build b)
  | .other _ => condition.otherSame p b

def Condition.holds (condition : Condition) (p b : Nat) : Bool :=
  match condition.comparison with
  | .equal | .notDistinctFrom => condition.same p b
  | .notEqual | .distinctFrom => !condition.same p b
  | _ => condition.ordered p b

/-- A join over a probe side and a build side, both shorter than the device's memory. -/
structure Join where
  planned : List Condition
  probeRows : Nat
  buildRows : Nat
  nonempty : planned ≠ []
  probeRows_lt : probeRows < 2 ^ 63
  buildRows_lt : buildRows < 2 ^ 63

theorem one_row_lt : 1 < 2 ^ 63 := by decide

theorem two_rows_lt : 2 < 2 ^ 63 := by decide

namespace Join

variable (join : Join)

/-- A probe row and a build row satisfy all conditions. -/
def Satisfies (p b : Nat) : Bool :=
  join.planned.all fun condition => condition.holds p b

/-- `ReorderConditions`: the equalities first. -/
def conditions : List Condition :=
  join.planned.filter (fun condition => condition.comparison.isEquality) ++
    join.planned.filter fun condition => !condition.comparison.isEquality

def numKeys : Nat := join.conditions.length

def conditionMode (condition : Condition) (key : Nat) : Option Nat :=
  condition.comparison.conditionMode join.numKeys key

def modes : Option (List Nat) :=
  join.conditions.zipIdx.mapM fun key => join.conditionMode key.1 key.2

def keyWidth : Option KeyWidth :=
  join.conditions.head?.bind fun condition =>
    match condition.type with
    | .INT32 => some .int32
    | .INT64 | .FLOAT64 => some .int64
    | .other _ => none

/-- What the build and the probe raise, or the width and the modes they go on with. -/
def accept : Except String (KeyWidth × List Nat) :=
  match join.keyWidth, join.modes with
  | none, _ => .error "Unsupported sirius column type in `HandleBuildExpression`"
  | _, none => .error "Unsupported comparison type"
  | some width, some modes => .ok (width, modes)

def probeWord (width : KeyWidth) (p n : Nat) : Word :=
  ((join.conditions[n]?).map fun condition => readKey width condition.probe p).getD 0

def buildWord (width : KeyWidth) (b n : Nat) : Word :=
  ((join.conditions[n]?).map fun condition => readKey width condition.build b).getD 0

/-- The build kernel's input. -/
def table (width : KeyWidth) (modes : List Nat) (positive : 0 < join.buildRows) : Build where
  rows := join.buildRows
  numKeys := join.numKeys
  equalKeys := modes.count 0
  keys := join.buildWord width
  positive := positive

end Join

/-- `local_found` of the probe kernels: the words in a slot against those of a row. -/
def localFound (modes : List Nat) (slot item : Nat → Word) : Bool :=
  modes.zipIdx.all fun mode =>
    if mode.1 = 0 then slot mode.2 = item mode.2
    else if mode.1 = 1 then slot mode.2 ≠ item mode.2
    else true

/-- A table after the threads of all build rows have ended. -/
structure Built (build : Build) where
  schedule : List Nat
  state : State Word
  run : build.insertion.Run schedule state
  finished : build.insertion.Finished state

/-- The modes for which the kernels have a hash. -/
def Hashed (modes : List Nat) : Prop := modes = [0] ∨ modes = [0, 1] ∨ modes = [0, 0]

/-! ## What is accepted -/

section Accepted

variable {join : Join} {width : KeyWidth} {modes : List Nat}

theorem mapM_getElem {α β : Type} {f : α → Option β} {l : List α} {results : List β}
    (ran : l.mapM f = some results) :
    results.length = l.length ∧ ∀ n : Nat, results[n]? = (l[n]?).bind f := by
  induction l generalizing results with
  | nil =>
      cases ran
      simp
  | cons a l ih =>
      rw [List.mapM_cons] at ran
      cases head : f a with
      | none => simp [head] at ran
      | some b =>
          cases tail : l.mapM f with
          | none => simp [head, tail] at ran
          | some bs =>
              simp only [head, tail, Option.bind_eq_bind, Option.bind_some, Option.pure_def,
                Option.some.injEq] at ran
              subst ran
              obtain ⟨size, each⟩ := ih tail
              refine ⟨by simp [size], fun n => ?_⟩
              cases n with
              | zero => simp [head]
              | succ n => simpa using each n

theorem accept_eq (accepted : join.accept = .ok (width, modes)) :
    join.keyWidth = some width ∧ join.modes = some modes := by
  rw [Join.accept] at accepted
  split at accepted
  · cases accepted
  · cases accepted
  case h_3 width' modes' type mode =>
    cases accepted
    exact ⟨type, mode⟩

theorem conditions_perm (join : Join) : join.conditions.Perm join.planned :=
  List.filter_append_perm (fun condition : Condition => condition.comparison.isEquality)
    join.planned

theorem numKeys_pos (join : Join) : 0 < join.numKeys := by
  rw [Join.numKeys, (conditions_perm join).length_eq]
  exact List.length_pos_iff.mpr join.nonempty

theorem modes_length (taken : join.modes = some modes) : modes.length = join.numKeys := by
  rw [(mapM_getElem taken).1, List.length_zipIdx, Join.numKeys]

theorem modes_getElem (taken : join.modes = some modes) (n : Nat) :
    modes[n]? = (join.conditions[n]?).bind fun condition => join.conditionMode condition n := by
  rw [(mapM_getElem taken).2, List.getElem?_zipIdx]
  cases join.conditions[n]? <;> simp

/-- The comparisons that get a mode. -/
theorem conditionMode_cases {condition : Condition} {n mode : Nat}
    (known : join.conditionMode condition n = some mode) :
    (mode = 0 ∧ condition.comparison.isEquality = true ∧
      ∀ p b, condition.holds p b = condition.same p b) ∨
    (mode = 1 ∧ condition.comparison.isEquality = false ∧ (n = 1 ∧ join.numKeys = 2) ∧
      ∀ p b, condition.holds p b = !condition.same p b) := by
  rw [Join.conditionMode] at known
  cases shape : condition.comparison <;>
    simp only [shape, ComparisonType.conditionMode, reduceCtorEq] at known
  case equal =>
    exact .inl ⟨(Option.some.inj known).symm, rfl, fun p b => by rw [Condition.holds, shape]⟩
  case notDistinctFrom =>
    exact .inl ⟨(Option.some.inj known).symm, rfl, fun p b => by rw [Condition.holds, shape]⟩
  all_goals
    split at known
    · cases known
    · refine .inr ⟨(Option.some.inj known).symm, rfl, by omega, fun p b => ?_⟩
      rw [Condition.holds, shape]

/-- The modes are all those of equalities, or the second of two is that of an inequality. -/
theorem modes_cases (taken : join.modes = some modes) :
    modes = List.replicate join.numKeys 0 ∨ modes = [0, 1] := by
  have size := modes_length taken
  have each {n mode : Nat} (here : modes[n]? = some mode) :
      mode = 0 ∨ (mode = 1 ∧ n = 1 ∧ join.numKeys = 2) := by
    rw [modes_getElem taken, Option.bind_eq_some_iff] at here
    obtain ⟨condition, -, known⟩ := here
    exact (conditionMode_cases known).imp And.left fun h => ⟨h.1, h.2.2.1⟩
  by_cases zeros : ∀ mode ∈ modes, mode = 0
  · exact .inl (List.eq_replicate_iff.mpr ⟨size, zeros⟩)
  · push Not at zeros
    obtain ⟨mode, member, other⟩ := zeros
    obtain ⟨n, here⟩ := List.mem_iff_getElem?.mp member
    obtain ⟨rfl, rfl, two⟩ := (each here).resolve_left other
    rw [two] at size
    obtain ⟨first, second, rfl⟩ := List.length_eq_two.mp size
    obtain rfl : second = 1 := Option.some.inj here
    have zero := (each (n := 0) rfl).resolve_right (by omega)
    exact .inr (by rw [zero])

/-- The first key is compared for equality. -/
theorem count_pos (taken : join.modes = some modes) : 0 < modes.count 0 := by
  rcases modes_cases taken with same | same
  · rw [same, List.count_replicate_self]
    exact numKeys_pos join
  · rw [same]
    decide

theorem hashed_of_modes (taken : join.modes = some modes)
    (few : modes.count 0 = 1 ∨ modes.count 0 = 2) : Hashed modes := by
  rcases modes_cases taken with same | same
  · rw [same, List.count_replicate_self] at few
    rcases few with one | two
    · exact .inl (by rw [same, one]; rfl)
    · exact .inr (.inr (by rw [same, two]; rfl))
  · exact .inr (.inl same)

/-- What the kernels ask of a pair of rows at one condition, by the words of its keys. -/
def Condition.fits (condition : Condition) (width : KeyWidth) (p b : Nat) : Bool :=
  if condition.comparison.isEquality then
    readKey width condition.build b = readKey width condition.probe p
  else readKey width condition.build b ≠ readKey width condition.probe p

/-- A build row and a probe row fit in all conditions, by the words of their keys. -/
def Join.Fits (join : Join) (width : KeyWidth) (p b : Nat) : Bool :=
  join.conditions.all fun condition => condition.fits width p b

theorem localFound_eq (taken : join.modes = some modes) (p b : Nat) :
    localFound modes (join.buildWord width b) (join.probeWord width p) = join.Fits width p b := by
  have word {n : Nat} {condition : Condition} (here : join.conditions[n]? = some condition) :
      join.buildWord width b n = readKey width condition.build b ∧
        join.probeWord width p n = readKey width condition.probe p := by
    simp [Join.buildWord, Join.probeWord, here]
  have verdict {n mode : Nat} {condition : Condition}
      (here : join.conditions[n]? = some condition)
      (known : join.conditionMode condition n = some mode) :
      (if mode = 0 then decide (join.buildWord width b n = join.probeWord width p n)
        else if mode = 1 then decide (join.buildWord width b n ≠ join.probeWord width p n)
        else true) = condition.fits width p b := by
    rw [(word here).1, (word here).2, Condition.fits]
    rcases conditionMode_cases known with ⟨rfl, equality, -⟩ | ⟨rfl, equality, -⟩ <;>
      simp [equality]
  rw [Bool.eq_iff_iff, localFound, Join.Fits, List.all_eq_true, List.all_eq_true]
  constructor
  · intro all condition member
    obtain ⟨n, here⟩ := List.mem_iff_getElem?.mp member
    have inside : n < modes.length := by
      rw [modes_length taken, Join.numKeys]
      exact (List.getElem?_eq_some_iff.mp here).1
    have known : join.conditionMode condition n = some (modes.get ⟨n, inside⟩) := by
      have mode := modes_getElem taken n
      rw [here, Option.bind_some, List.getElem?_eq_getElem inside] at mode
      exact mode.symm
    rw [← verdict here known]
    exact all (modes.get ⟨n, inside⟩, n) (List.mem_zipIdx_iff_getElem?.mpr
      (List.getElem?_eq_getElem inside))
  · rintro all ⟨mode, n⟩ member
    have here := List.mem_zipIdx_iff_getElem?.mp member
    simp only at here
    rw [modes_getElem taken, Option.bind_eq_some_iff] at here
    obtain ⟨condition, at', known⟩ := here
    rw [verdict at' known]
    exact all condition (List.mem_of_getElem? at')

/-- Integer keys of the width that is read are compared as they are. -/
theorem fits_eq_holds {condition : Condition} {n mode : Nat}
    (known : join.conditionMode condition n = some mode)
    (type : (width = .int32 ∧ condition.type = .INT32) ∨ (width = .int64 ∧ condition.type = .INT64))
    (p b : Nat) : condition.fits width p b = condition.holds p b := by
  have same : (readKey width condition.build b = readKey width condition.probe p) ↔
      condition.same p b = true := by
    rcases type with ⟨rfl, type⟩ | ⟨rfl, type⟩
    · simp only [readKey, Condition.same, type, decide_eq_true_iff]
      constructor
      · intro extended
        have values := congrArg BitVec.toInt extended
        rw [BitVec.toInt_signExtend_of_le (by decide), BitVec.toInt_signExtend_of_le (by decide)]
          at values
        exact (BitVec.eq_of_toInt_eq values).symm
      · intro bits
        rw [bits]
    · simp only [readKey, Condition.same, type, decide_eq_true_iff]
      exact eq_comm
  rw [Condition.fits]
  rcases conditionMode_cases known with ⟨-, equality, holds⟩ | ⟨-, equality, -, holds⟩
  · rw [holds, if_pos equality, Bool.eq_iff_iff, decide_eq_true_iff, same]
  · rw [holds, equality, if_neg Bool.false_ne_true, Bool.eq_iff_iff, decide_eq_true_iff, ne_eq,
      same]
    simp

/-- The words decide all conditions when every key has the integer type that is read. -/
theorem fits_eq_satisfies (taken : join.modes = some modes)
    (types : ∀ condition ∈ join.planned, (width = .int32 ∧ condition.type = .INT32) ∨
      (width = .int64 ∧ condition.type = .INT64)) (p b : Nat) :
    join.Fits width p b = join.Satisfies p b := by
  have reordered := conditions_perm join
  rw [Join.Satisfies, ← reordered.all_eq, Join.Fits, Bool.eq_iff_iff, List.all_eq_true,
    List.all_eq_true]
  refine forall₂_congr fun condition member => ?_
  obtain ⟨n, here⟩ := List.mem_iff_getElem?.mp member
  have inside : n < modes.length := by
    rw [modes_length taken, Join.numKeys]
    exact (List.getElem?_eq_some_iff.mp here).1
  have mode := modes_getElem taken n
  rw [here, Option.bind_some, List.getElem?_eq_getElem inside] at mode
  rw [fits_eq_holds mode.symm (types condition (reordered.mem_iff.mp member))]

end Accepted

/-! ## What a finished table holds -/

section Table

variable {build : Build} (built : Built build)

/-- The rows that the compare-and-swap takes for an empty slot. -/
def Marked (build : Build) (row : Nat) : Prop := build.keys row 0 = EMPTY

/-- No successful compare-and-swap takes a slot that another row has taken before, or a row
has no further key that the two would mix. -/
def Built.Clean : Prop := build.numKeys = 1 ∨ Exclusive built.state

variable {built}

theorem real_iff (some : 0 < build.numKeys) {row : Nat} :
    build.insertion.Real row ↔ ¬ Marked build row := by
  rw [Insertion.Real, Marked]
  simp [Build.insertion, Build.record, some]

theorem exists_slot (built : Built build) {row : Nat} (inside : row < build.insertedRows) :
    ∃ slot, (built.state.thread row).claimed = some slot := by
  obtain ⟨slot, done⟩ := built.finished row inside
  exact ⟨slot, by rw [done, Thread.claimed]⟩

/-- The keys of a row are in its slot. -/
theorem cells_eq (clean : built.Clean) {row slot n : Nat}
    (placed : (built.state.thread row).claimed = some slot) (real : ¬ Marked build row)
    (key : n < build.numKeys) : built.state.cells slot n = build.keys row n := by
  have inv := run_inv built.run
  have record : build.insertion.record row n = build.keys row n := by
    simp [Build.insertion, Build.record, key]
  rw [← record]
  rcases clean with single | exclusive
  · obtain rfl : n = 0 := by omega
    exact inv.key row slot placed ((real_iff key).mpr real)
  · obtain ⟨x, done⟩ := built.finished row (inv.placed row slot placed).1
    refine run_columns built.run exclusive placed ?_
    rw [done, progress]
    exact Nat.lt_succ_of_lt key

end Table

/-! ## The words of a pair of rows -/

section Words

theorem localFound_congr {modes : List Nat} {slot slot' item : Nat → Word}
    (same : ∀ n < modes.length, slot n = slot' n) :
    localFound modes slot item = localFound modes slot' item := by
  rw [Bool.eq_iff_iff, localFound, localFound, List.all_eq_true, List.all_eq_true]
  refine forall₂_congr fun mode member => ?_
  have inside := (List.mem_zipIdx member).2.1
  rw [same mode.2 (by omega)]

/-- Rows whose words fit start from the same slot. -/
theorem startSlot_eq {modes : List Nat} (hashed : Hashed modes) (htLen : Nat)
    {slot item : Nat → Word} (fits : localFound modes slot item = true) :
    startSlot (modes.count 0) htLen slot = startSlot (modes.count 0) htLen item := by
  have one {x y : Nat → Word} (key : x 0 = y 0) : startSlot 1 htLen x = startSlot 1 htLen y := by
    rw [startSlot, startSlot, if_pos rfl, if_pos rfl, key]
  rcases hashed with rfl | rfl | rfl
  · exact one (by simpa [localFound] using fits)
  · have both : slot 0 = item 0 ∧ slot 1 ≠ item 1 := by simpa [localFound] using fits
    exact one both.1
  · have both : slot 0 = item 0 ∧ slot 1 = item 1 := by simpa [localFound] using fits
    have two (x : Nat → Word) : startSlot 2 htLen x =
        some ((hash64 (x 0) (x 1)).toNat % htLen) := by
      rw [startSlot, if_neg (by decide), if_pos rfl]
    calc startSlot 2 htLen slot = some ((hash64 (slot 0) (slot 1)).toNat % htLen) := two slot
      _ = some ((hash64 (item 0) (item 1)).toNat % htLen) := by rw [both.1, both.2]
      _ = startSlot 2 htLen item := (two item).symm

end Words

/-! ## Probing a finished table -/

section Probe

variable {build : Build} {built : Built build} {modes : List Nat} {words : Nat → Word}
variable {slot fuel : Nat}

/-- The slots that fit a probe row. -/
def fitting (built : Built build) (modes : List Nat) (words : Nat → Word) (slot : Nat) : Bool :=
  localFound modes (built.state.cells slot) words

/-- What a build needs for its table to be probed with these modes. -/
structure Probing (build : Build) (modes : List Nat) : Prop where
  keys : build.numKeys = modes.length
  equalKeys : build.equalKeys = modes.count 0
  hashed : Hashed modes

theorem Probing.some (probing : Probing build modes) : 0 < build.numKeys := by
  rw [probing.keys]
  rcases probing.hashed with rfl | rfl | rfl <;> decide

theorem Probing.inserted (probing : Probing build modes) : build.insertedRows = build.rows := by
  rw [Build.insertedRows, if_pos]
  rw [probing.equalKeys]
  rcases probing.hashed with rfl | rfl | rfl <;> decide

theorem fitting_eq (probing : Probing build modes) (clean : built.Clean) {row : Nat}
    (placed : (built.state.thread row).claimed = Option.some slot) (real : ¬ Marked build row) :
    fitting built modes words slot = localFound modes (build.keys row) words := by
  refine localFound_congr fun n hn => cells_eq clean placed real ?_
  rwa [probing.keys]

/-- The slot of a fitting real row is on the walk. -/
theorem mem_trail_of_fits (probing : Probing build modes) {row x k : Nat}
    (placed : (built.state.thread row).claimed = Option.some x) (real : ¬ Marked build row)
    (fits : localFound modes (build.keys row) words = true)
    (start : startSlot build.equalKeys build.htLen words = Option.some slot)
    (ends : EndsAt build.insertion (looksEmpty build.insertion built.state) slot k) :
    x ∈ trail build.insertion slot k := by
  have inv := run_inv built.run
  have inside := (inv.placed row x placed).1
  have same : build.insertion.start row = slot := by
    have begun := build.start_of_inserted inside
    rw [probing.equalKeys, startSlot_eq probing.hashed build.htLen fits, ← probing.equalKeys,
      start] at begun
    exact (Option.some.inj begun).symm
  subst same
  exact mem_trail_of_placed inv placed ((real_iff probing.some).mpr real) ends

/-- The slots of a walk are those of real rows. -/
theorem owner_of_trail {x : Nat} (taken : looksEmpty build.insertion built.state x = false)
    (probing : Probing build modes) :
    ∃ row < build.rows, (built.state.thread row).claimed = Option.some x ∧ ¬ Marked build row := by
  obtain ⟨row, inside, placed, real⟩ := owner_of_taken (run_inv built.run) taken
  have inserted : build.insertion.rows = build.rows := probing.inserted
  exact ⟨row, inserted ▸ inside, placed, (real_iff probing.some).mp real⟩

/-- The single-match walk finds a slot exactly if some real row fits. -/
theorem walkFirst_isSome (built : Built build) (probing : Probing build modes) (clean : built.Clean)
    {found : Option Nat} (start : startSlot build.equalKeys build.htLen words = Option.some slot)
    (ran : walkFirst build.insertion (looksEmpty build.insertion built.state)
      (fitting built modes words) fuel slot = Option.some found) :
    found.isSome = true ↔
      ∃ b < build.rows, ¬ Marked build b ∧ localFound modes (build.keys b) words = true := by
  rcases walkFirst_eq (build.startSlot_lt start) ran with ⟨rfl, k, ends, missed⟩ |
    ⟨x, rfl, hit, taken, -⟩
  · constructor
    · intro h
      cases h
    · rintro ⟨b, hb, real, fits⟩
      obtain ⟨x, placed⟩ := exists_slot built (probing.inserted.symm ▸ hb)
      have passed := missed x (mem_trail_of_fits probing placed real fits start ends)
      rw [fitting_eq probing clean placed real, fits] at passed
      cases passed
  · obtain ⟨b, hb, placed, real⟩ := owner_of_trail taken probing
    rw [fitting_eq probing clean placed real] at hit
    simp only [Option.isSome_some, true_iff]
    exact ⟨b, hb, real, hit⟩

/-- The slot that the single-match walk finds is that of a real row that fits. -/
theorem walkFirst_owner (built : Built build) (probing : Probing build modes) (clean : built.Clean)
    {x : Nat} (start : startSlot build.equalKeys build.htLen words = Option.some slot)
    (ran : walkFirst build.insertion (looksEmpty build.insertion built.state)
      (fitting built modes words) fuel slot = Option.some (Option.some x)) :
    ∃ b < build.rows, (built.state.thread b).claimed = Option.some x ∧ ¬ Marked build b ∧
      localFound modes (build.keys b) words = true := by
  rcases walkFirst_eq (build.startSlot_lt start) ran with ⟨none, -⟩ | ⟨y, same, hit, taken, -⟩
  · cases none
  · cases same
    obtain ⟨b, inside, placed, real⟩ := owner_of_trail taken probing
    rw [fitting_eq probing clean placed real] at hit
    exact ⟨b, inside, placed, real, hit⟩

/-- The slots that the walk for all matches finds are those of the real rows that fit. -/
theorem mem_walkAll (built : Built build) (probing : Probing build modes) (clean : built.Clean)
    {found : List Nat}
    (start : startSlot build.equalKeys build.htLen words = Option.some slot)
    (ran : walkAll build.insertion (looksEmpty build.insertion built.state)
      (fitting built modes words) fuel slot = Option.some found) (x : Nat) :
    x ∈ found ↔ ∃ b < build.rows, (built.state.thread b).claimed = Option.some x ∧
      ¬ Marked build b ∧ localFound modes (build.keys b) words = true := by
  obtain ⟨k, ends, rfl⟩ := walkAll_eq (build.startSlot_lt start) ran
  rw [List.mem_filter]
  constructor
  · rintro ⟨passed, hit⟩
    obtain ⟨j, hj, rfl⟩ := mem_trail.mp passed
    obtain ⟨b, hb, placed, real⟩ := owner_of_trail (ends.2 j hj) probing
    rw [fitting_eq probing clean placed real] at hit
    exact ⟨b, hb, placed, real, hit⟩
  · rintro ⟨b, hb, placed, real, fits⟩
    refine ⟨mem_trail_of_fits probing placed real fits start ends, ?_⟩
    rwa [fitting_eq probing clean placed real]

end Probe

/-- One probe and one build row with a BIGINT key of eight equal bytes. -/
def oneRow (byte : UInt8) : Join where
  planned := [⟨.equal, .INT64, fun _ => byte, fun _ => byte, fun _ _ => true, fun _ _ => true⟩]
  probeRows := 1
  buildRows := 1
  nonempty := by simp
  probeRows_lt := one_row_lt
  buildRows_lt := one_row_lt

theorem oneRow_accept (byte : UInt8) : (oneRow byte).accept = .ok (.int64, [0]) := rfl

end HashJoinProbe
