import SiriusGpu.JoinConditions
import SiriusGpu.Materialize
import SiriusGpu.PhysicalPlan
import Mathlib.Data.List.Dedup

/-!
# The column indices of a hash join

The constructor numbers the columns of the build side, `Sink` stores them under
these numbers, and `Execute` and `GetData` read them back. A column stands for
itself here, with its type: the rows, the hash table and the freeing of columns are
not modelled. Building and probing the table refuse some keys and comparisons, and
what cudf refuses in an inner join is a parameter.

An index past the end of a vector raises, as DuckDB's vector does, and so does an
entry that was never written.
-/

namespace HashJoinIndices

open JoinConditions
open GpuColumns (GPUColumnType)
open Materialize (materializable)
open PhysicalPlan (JoinType)

/-- A condition with the indices of its bound references; `none` is any other expression. -/
structure JoinCondition where
  comparison : ComparisonType
  left : Option Nat
  right : Option Nat

/-- What the planner hands to the constructor, with the numbers of columns of the children
and of the operator's types. -/
structure Plan where
  joinType : JoinType
  conditions : List JoinCondition
  leftColumns : Nat
  rightColumns : Nat
  leftProjection : List Nat
  rightProjection : List Nat
  types : Nat

/-- A column of an output relation. -/
inductive Output (α : Type) where
  | column (c : α)
  | emptyLike (c : α)
  | null
  | mark
  deriving DecidableEq

/-- What ends a call: a vector that is too short, a null pointer, or an exception of the join. -/
inductive Failure where
  | outOfRange
  | nullPointer
  | raised (message : String)
  deriving DecidableEq

/-- An exception, if there is one. -/
def throwIf : Option String → Except Failure Unit
  | some message => .error (.raised message)
  | none => .ok ()

section Access

variable {α β : Type}

def get (table : List α) (i : Nat) : Except Failure α :=
  match table[i]? with
  | some c => .ok c
  | none => .error .outOfRange

def setAt (table : List (Option α)) (i : Nat) (c : α) : Except Failure (List (Option α)) :=
  if i < table.length then .ok (table.set i (some c)) else .error .outOfRange

/-- An entry that was not written is a null pointer. -/
def getWritten (table : List (Option α)) (i : Nat) : Except Failure α := do
  match ← get table i with
  | some c => .ok c
  | none => .error .nullPointer

def bound (index : Option Nat) : Except Failure Nat :=
  match index with
  | some i => .ok i
  | none => .error (.raised "Failed to cast expression to type - expression type mismatch")

/-- The columns read at `indices` are written from `start` on. -/
def copyColumns (read : Nat → Except Failure β) :
    Nat → List Nat → List (Option β) → Except Failure (List (Option β))
  | _, [], table => .ok table
  | start, i :: indices, table => do
      let c ← read i
      let table ← setAt table start c
      copyColumns read (start + 1) indices table

end Access

def JoinCondition.isEquality (condition : JoinCondition) : Bool :=
  condition.comparison.isEquality

/-- `ReorderConditions` leaves a list alone in which the equalities come first. -/
def isOrdered : List JoinCondition → Bool
  | [] => true
  | condition :: rest =>
      if condition.isEquality then isOrdered rest
      else rest.all fun other => !other.isEquality

def reorderConditions (conditions : List JoinCondition) : List JoinCondition :=
  if isOrdered conditions then conditions
  else conditions.filter JoinCondition.isEquality ++
    conditions.filter fun condition => !condition.isEquality

/-- An entry is only inserted under a new key. -/
def emplace (entries : List (Nat × Nat)) (key value : Nat) : List (Nat × Nat) :=
  if (entries.lookup key).isSome then entries else entries ++ [(key, value)]

def buildColumnsInConditions :
    Nat → List JoinCondition → List (Nat × Nat) → List (Nat × Nat)
  | _, [], entries => entries
  | condIdx, condition :: rest, entries =>
      match condition.right with
      | some column =>
          buildColumnsInConditions (condIdx + 1) rest (emplace entries column condIdx)
      | none => buildColumnsInConditions (condIdx + 1) rest entries

structure RhsColumns where
  payload : List Nat
  output : List Nat
  deriving DecidableEq

/-- A build column of the projection is a payload column or the key of a condition. -/
def addRhsColumn (conditionTypes : Nat) (entries : List (Nat × Nat)) (rhs : RhsColumns)
    (column : Nat) : RhsColumns :=
  match entries.lookup column with
  | none =>
      { payload := rhs.payload ++ [column]
        output := rhs.output ++ [conditionTypes + rhs.payload.length] }
  | some condIdx => { rhs with output := rhs.output ++ [condIdx] }

structure HashJoin where
  joinType : JoinType
  conditions : List JoinCondition
  lhsOutput : List Nat
  payload : List Nat
  rhsOutput : List Nat
  hashTableResultSize : Nat
  materializedBuildKeySize : Nat
  types : Nat

/-- An empty projection map stands for all columns. -/
def fullProjection (projection : List Nat) (columns : Nat) : List Nat :=
  if projection = [] then List.range columns else projection

def checkTypes (projection : List Nat) (columns : Nat) : Except Failure Unit :=
  if projection.all fun column => column < columns then .ok () else .error .outOfRange

def keysOnly (joinType : JoinType) : Bool :=
  joinType = .anti ∨ joinType = .semi ∨ joinType = .mark

/-- The constructor of the join. -/
def construct (plan : Plan) : Except Failure HashJoin := do
  let conditions := reorderConditions plan.conditions
  let entries := buildColumnsInConditions 0 conditions []
  let lhsOutput := fullProjection plan.leftProjection plan.leftColumns
  checkTypes lhsOutput plan.leftColumns
  if keysOnly plan.joinType then
    .ok {
      joinType := plan.joinType
      conditions := conditions
      lhsOutput := lhsOutput
      payload := []
      rhsOutput := []
      hashTableResultSize := entries.length
      materializedBuildKeySize := entries.length
      types := plan.types }
  else
    let projection := fullProjection plan.rightProjection plan.rightColumns
    checkTypes projection plan.rightColumns
    let rhs := projection.foldl (addRhsColumn conditions.length entries) ⟨[], []⟩
    .ok {
      joinType := plan.joinType
      conditions := conditions
      lhsOutput := lhsOutput
      payload := rhs.payload
      rhsOutput := rhs.output
      hashTableResultSize := entries.length + rhs.payload.length
      materializedBuildKeySize := entries.length
      types := plan.types }

section Run

variable {α : Type}

/-- What `Sink` leaves for the probe side. -/
structure BuildSide (α : Type) where
  hashTableResult : List (Option α)
  materializedBuildKey : List (Option α)

def keyColumn (relation : List α) (index : Option Nat) : Except Failure α := do
  get relation (← bound index)

/-- What `HandleMaterializeExpression` says of a key column of the type. -/
def handleMaterializeExpression (type : GPUColumnType) : Option String :=
  if materializable type then none
  else
    match type with
    | .decimal _ _ =>
        some "Unsupported sirius DECIMAL column type size in `HandleMaterializeExpression`"
    | _ => some "Unsupported sirius column type in `HandleMaterializeExpression`"

def materializedKey (type : α → GPUColumnType) (relation : List α) (index : Option Nat) :
    Except Failure α := do
  let column ← keyColumn relation index
  throwIf (handleMaterializeExpression (type column))
  .ok column

/-- The types of the first key for which there is a kernel. -/
def kernelType : GPUColumnType → Bool
  | .int32 | .int64 | .float64 => true
  | _ => false

def handleBuildExpression (conditions : List JoinCondition) (joinType : JoinType)
    (key : GPUColumnType) : Option String :=
  if kernelType key = false then
    some "Unsupported sirius column type in `HandleBuildExpression`"
  else if conditions.zipIdx.any fun condition =>
      condition.1.comparison.conditionMode conditions.length condition.2 = none then
    some "Unsupported comparison type"
  else
    match joinType with
    | .inner | .semi | .mark | .right | .rightSemi | .rightAnti => none
    | _ => some "Unsupported join type"

/-- The loop that stores the keys under the numbers of their conditions. -/
def storeKeys (relation : List α) :
    Nat → List (JoinCondition × α) → BuildSide α → Except Failure (BuildSide α)
  | _, [], build => .ok build
  | condIdx, (condition, key) :: rest, build => do
      let column ← keyColumn relation condition.right
      let result ← setAt build.hashTableResult condIdx column
      let keys ← setAt build.materializedBuildKey condIdx key
      storeKeys relation (condIdx + 1) rest ⟨result, keys⟩

def sink (type : α → GPUColumnType) (join : HashJoin) (relation : List α) :
    Except Failure (BuildSide α) := do
  let buildKeys ← join.conditions.mapM fun condition =>
    materializedKey type relation condition.right
  -- the table is as long as twice the first key column
  let first ← get buildKeys 0
  throwIf (if join.joinType = .inner then none
    else handleBuildExpression join.conditions join.joinType (type first))
  let build ← storeKeys relation 0 (join.conditions.zip buildKeys)
    ⟨List.replicate join.hashTableResultSize none,
      List.replicate join.materializedBuildKeySize none⟩
  let result ← copyColumns (get relation) join.conditions.length join.payload
    build.hashTableResult
  .ok { build with hashTableResult := result }

/-- The comparisons for which the probe has a mode, under whatever key. -/
def probed : ComparisonType → Bool
  | .equal | .notDistinctFrom | .notEqual | .distinctFrom => true
  | _ => false

def handleProbeExpression (conditions : List JoinCondition) (joinType : JoinType)
    (key : GPUColumnType) : Option String :=
  if kernelType key = false then
    some "Unsupported sirius column type in `HandleProbeExpression`"
  else if conditions.any fun condition => !probed condition.comparison then
    some "Unsupported comparison type"
  else
    match joinType with
    | .semi | .anti | .right | .rightSemi | .rightAnti => none
    | _ => some "Unsupported join type"

def handleMarkExpression (conditions : List JoinCondition) (key : GPUColumnType) :
    Option String :=
  if kernelType key = false then
    some "Unsupported sirius column type in `HandleMarkExpression`"
  else if conditions.zipIdx.any fun condition =>
      condition.1.comparison.conditionMode conditions.length condition.2 = none then
    some "Unsupported comparison type"
  else none

/-- The number of columns `Execute` asks of its output relation. -/
def outputSize (join : HashJoin) : Option Nat :=
  match join.joinType with
  | .rightSemi => some join.rhsOutput.length
  | .rightAnti => some join.rhsOutput.length
  | .semi => some join.lhsOutput.length
  | .anti => some join.lhsOutput.length
  | .right => some (join.lhsOutput.length + join.rhsOutput.length)
  | .left => some (join.lhsOutput.length + join.rhsOutput.length)
  | .inner => some (join.lhsOutput.length + join.rhsOutput.length)
  | .outer => some (join.lhsOutput.length + join.rhsOutput.length)
  | .mark => some (join.lhsOutput.length + 1)
  | .single => none

def leftColumn (relation : List α) (i : Nat) : Except Failure (Output α) :=
  (get relation i).map .column

def buildColumn (build : BuildSide α) (i : Nat) : Except Failure (Output α) :=
  (getWritten build.hashTableResult i).map .column

/-- The build columns before the hash table is scanned have no rows. -/
def emptyBuildColumn (build : BuildSide α) (i : Nat) : Except Failure (Output α) :=
  (getWritten build.hashTableResult i).map .emptyLike

/-- Every column of the build side is locked before the build columns are put out. -/
def buildColumns (join : HashJoin) (build : BuildSide α) (output : List (Option (Output α))) :
    Except Failure (List (Option (Output α))) := do
  let _ ← (List.range build.hashTableResult.length).mapM (getWritten build.hashTableResult)
  copyColumns (buildColumn build) join.lhsOutput.length join.rhsOutput output

/-- `cudf` says what the inner join raises on the keys of both sides. -/
def execute (type : α → GPUColumnType) (cudf : List α → List α → Option String)
    (join : HashJoin) (build : BuildSide α) (relation : List α) :
    Except Failure (List (Option (Output α))) := do
  if outputSize join ≠ some join.types then .error (.raised "Wrong input size")
  else
    let probeKeys ← join.conditions.mapM fun condition =>
      materializedKey type relation condition.left
    let first ← get probeKeys 0
    let output := List.replicate join.types none
    match join.joinType with
    | .inner =>
        let buildKeys ←
          (List.range join.conditions.length).mapM (getWritten build.materializedBuildKey)
        throwIf (cudf probeKeys buildKeys)
        let output ← copyColumns (leftColumn relation) 0 join.lhsOutput output
        buildColumns join build output
    | .outer | .right =>
        throwIf (handleProbeExpression join.conditions join.joinType (type first))
        let output ← copyColumns (leftColumn relation) 0 join.lhsOutput output
        buildColumns join build output
    | .semi | .anti =>
        throwIf (handleProbeExpression join.conditions join.joinType (type first))
        copyColumns (leftColumn relation) 0 join.lhsOutput output
    | .mark =>
        throwIf (handleMarkExpression join.conditions (type first))
        let output ← copyColumns (leftColumn relation) 0 join.lhsOutput output
        setAt output join.lhsOutput.length .mark
    | .rightSemi | .rightAnti =>
        throwIf (handleProbeExpression join.conditions join.joinType (type first))
        copyColumns (emptyBuildColumn build) 0 join.rhsOutput output
    | _ => .error (.raised "Unsupported join type")

/-- The scan of the hash table after the last probe. -/
def getData (join : HashJoin) (build : BuildSide α) :
    Except Failure (List (Option (Output α))) := do
  let output := List.replicate join.types none
  match join.joinType with
  | .right =>
      let leftColumnCount := join.types - join.rhsOutput.length
      let output ← copyColumns (fun _ => .ok .null) 0 (List.range leftColumnCount) output
      copyColumns (buildColumn build) leftColumnCount join.rhsOutput output
  | .rightSemi | .rightAnti => copyColumns (buildColumn build) 0 join.rhsOutput output
  | _ => .error (.raised "Get data not supported for this join type")

/-- Only the joins that keep build rows scan the hash table. -/
def scans (joinType : JoinType) : Bool :=
  joinType = .right ∨ joinType = .rightSemi ∨ joinType = .rightAnti

/-- The relations that `Execute` and `GetData` put out. -/
def run (type : α → GPUColumnType) (cudf : List α → List α → Option String) (plan : Plan)
    (left right : List α) :
    Except Failure (List (Option (Output α)) × List (Option (Output α))) := do
  let join ← construct plan
  let build ← sink type join right
  let executed ← execute type cudf join build left
  if scans plan.joinType then
    let scanned ← getData join build
    .ok (executed, scanned)
  else .ok (executed, [])

end Run

section Access

variable {α β : Type} {table : List (Option α)}

theorem get_ok {table : List α} {i : Nat} {c : α} (found : table[i]? = some c) :
    get table i = .ok c := by
  simp [get, found]

theorem getWritten_ok {i : Nat} {c : α} (found : table[i]? = some (some c)) :
    getWritten table i = .ok c := by
  rw [getWritten, get_ok found]
  rfl

theorem getWritten_all {values : List α} (written : table = values.map some) {n : Nat}
    (size : n = values.length) :
    (List.range n).mapM (getWritten table) = .ok values := by
  have each (before after : List α) (shape : before ++ after = values) :
      (List.range' before.length after.length).mapM (getWritten table) = .ok after := by
    induction after generalizing before with
    | nil => rfl
    | cons c after ih =>
        have here : table[before.length]? = some (some c) := by
          simp [written, ← shape]
        have later := ih (before ++ [c]) (by simpa using shape)
        rw [List.length_append, List.length_singleton] at later
        rw [List.length_cons, List.range'_succ, List.mapM_cons, getWritten_ok here, later]
        rfl
  rw [size, List.range_eq_range']
  exact each [] values rfl

theorem setAt_append (before : List (Option α)) (old : Option α) (after : List (Option α)) (c : α) :
    setAt (before ++ old :: after) before.length c = .ok (before ++ some c :: after) := by
  simp [setAt]

/-- A range of entries that is there is filled in order. -/
theorem copyColumns_ok (read : Nat → Except Failure β) (value : Nat → Option β)
    (indices : List Nat)
    (reads : ∀ i ∈ indices, ∃ c, value i = some c ∧ read i = .ok c)
    (before after : List (Option β)) :
    copyColumns read before.length indices
        (before ++ List.replicate indices.length none ++ after) =
      .ok (before ++ indices.map value ++ after) := by
  induction indices generalizing before with
  | nil => simp [copyColumns]
  | cons i rest ih =>
      obtain ⟨c, here, readable⟩ := reads i List.mem_cons_self
      have later := ih (fun j member => reads j (List.mem_cons_of_mem _ member))
        (before ++ [some c])
      rw [List.length_append, List.length_singleton] at later
      simp only [copyColumns, readable, bind, Except.bind, List.length_cons,
        List.replicate_succ, List.append_assoc, List.cons_append, setAt_append]
      simpa [here] using later

end Access

/-! ## Results and exceptions -/

section Returns

variable {β γ : Type}

/-- The call returns the result, or the join raises an exception of its own. -/
def Returns (outcome : Except Failure β) (result : β) : Prop :=
  match outcome with
  | .ok value => value = result
  | .error (.raised _) => True
  | .error _ => False

theorem Returns.bind {outcome : Except Failure β} {next : β → Except Failure γ} {value : β}
    {result : γ} (first : Returns outcome value) (later : Returns (next value) result) :
    Returns (outcome >>= next) result := by
  match outcome, first with
  | .ok _, rfl => exact later
  | .error (.raised _), _ => trivial

theorem Returns.of_eq {outcome : Except Failure β} {result : β} (same : outcome = .ok result) :
    Returns outcome result := by
  rw [same]
  rfl

theorem returns_throwIf (message : Option String) : Returns (throwIf message) () := by
  cases message <;> trivial

end Returns

/-! ## The build columns -/

section Conditions

theorem reorderConditions_perm (conditions : List JoinCondition) :
    (reorderConditions conditions).Perm conditions := by
  rw [reorderConditions]
  split
  · exact List.Perm.refl _
  · exact List.filter_append_perm JoinCondition.isEquality conditions

def buildIndices (conditions : List JoinCondition) : List Nat :=
  conditions.filterMap JoinCondition.right

theorem emplace_keys (entries : List (Nat × Nat)) (key value : Nat) :
    (key ∈ entries.map Prod.fst ∧ emplace entries key value = entries) ∨
      (key ∉ entries.map Prod.fst ∧ emplace entries key value = entries ++ [(key, value)]) := by
  cases found : entries.lookup key with
  | some other =>
      refine .inl ⟨?_, by simp [emplace, found]⟩
      by_contra absent
      have none : entries.lookup key = none := by
        rw [List.lookup_eq_none_iff]
        intro entry member
        have differ : key ≠ entry.1 := by
          rintro rfl
          exact absent (List.mem_map_of_mem member)
        simpa using differ
      simp [none] at found
  | none =>
      refine .inr ⟨?_, by simp [emplace, found]⟩
      rw [List.lookup_eq_none_iff] at found
      intro member
      obtain ⟨entry, inside, rfl⟩ := List.mem_map.mp member
      simpa using found entry inside

/-- The keys of the map are distinct build columns of the conditions. -/
theorem buildColumns_keys (conditions : List JoinCondition) (condIdx : Nat)
    (entries : List (Nat × Nat)) (distinct : (entries.map Prod.fst).Nodup) :
    ((buildColumnsInConditions condIdx conditions entries).map Prod.fst).Nodup ∧
      ∀ key ∈ (buildColumnsInConditions condIdx conditions entries).map Prod.fst,
        key ∈ entries.map Prod.fst ∨ key ∈ buildIndices conditions := by
  induction conditions generalizing condIdx entries with
  | nil => exact ⟨distinct, fun key member => .inl member⟩
  | cons condition rest ih =>
      cases column : condition.right with
      | none =>
          simp only [buildColumnsInConditions, column, buildIndices, List.filterMap_cons]
          exact ih (condIdx + 1) entries distinct
      | some index =>
          simp only [buildColumnsInConditions, column, buildIndices, List.filterMap_cons]
          rcases emplace_keys entries index condIdx with ⟨_, same⟩ | ⟨fresh, added⟩
          · rw [same]
            obtain ⟨nodup, keys⟩ := ih (condIdx + 1) entries distinct
            refine ⟨nodup, fun key member => (keys key member).imp_right fun later => ?_⟩
            exact List.mem_cons_of_mem _ later
          · rw [added]
            have longer : ((entries ++ [(index, condIdx)]).map Prod.fst).Nodup := by
              rw [List.map_append, List.nodup_append]
              refine ⟨distinct, List.nodup_singleton _, fun key member other single same => ?_⟩
              rw [List.map_singleton, List.mem_singleton] at single
              have here : key = index := same.trans single
              exact fresh (here ▸ member)
            obtain ⟨nodup, keys⟩ := ih (condIdx + 1) (entries ++ [(index, condIdx)]) longer
            refine ⟨nodup, fun key member => ?_⟩
            rcases keys key member with old | later
            · rw [List.map_append, List.mem_append] at old
              rcases old with old | new
              · exact .inl old
              · exact .inr (by simp_all)
            · exact .inr (List.mem_cons_of_mem _ later)

/-- There is room for the keys of all conditions only if their build columns differ. -/
theorem buildColumns_length_lt {conditions : List JoinCondition}
    (repeated : ¬ (buildIndices conditions).Nodup) :
    (buildColumnsInConditions 0 conditions []).length < (buildIndices conditions).length := by
  obtain ⟨nodup, keys⟩ := buildColumns_keys conditions 0 [] List.nodup_nil
  have within : (buildColumnsInConditions 0 conditions []).map Prod.fst ⊆
      (buildIndices conditions).dedup := by
    intro key member
    rcases keys key member with none | inside
    · cases none
    · exact List.mem_dedup.mpr inside
  have le := (nodup.subperm within).length_le
  have shorter : (buildIndices conditions).dedup.length < (buildIndices conditions).length := by
    refine Nat.lt_of_le_of_ne (List.dedup_sublist _).length_le fun same => repeated ?_
    rw [← (List.dedup_sublist _).eq_of_length same]
    exact List.nodup_dedup _
  rw [List.length_map] at le
  exact Nat.lt_of_le_of_lt le shorter

/-- Distinct build columns are numbered as their conditions. -/
theorem buildColumns_of_nodup (conditions : List JoinCondition) (condIdx : Nat)
    (entries : List (Nat × Nat))
    (bound : ∀ condition ∈ conditions, condition.right ≠ none)
    (distinct : (entries.map Prod.fst ++ buildIndices conditions).Nodup) :
    buildColumnsInConditions condIdx conditions entries =
      entries ++ (buildIndices conditions).zipIdx condIdx := by
  induction conditions generalizing condIdx entries with
  | nil => simp [buildColumnsInConditions, buildIndices]
  | cons condition rest ih =>
      obtain ⟨index, column⟩ := Option.ne_none_iff_exists'.mp (bound condition List.mem_cons_self)
      have indices : buildIndices (condition :: rest) = index :: buildIndices rest := by
        simp [buildIndices, column]
      rw [indices] at distinct ⊢
      have fresh : index ∉ entries.map Prod.fst := by
        intro member
        exact (List.nodup_append.mp distinct).2.2 index member index List.mem_cons_self rfl
      rcases emplace_keys entries index condIdx with ⟨present, _⟩ | ⟨_, added⟩
      · exact absurd present fresh
      · simp only [buildColumnsInConditions, column, added]
        rw [ih (condIdx + 1) _ (fun other member => bound other (List.mem_cons_of_mem _ member))
          (by simpa using distinct)]
        simp [List.zipIdx_cons]

theorem lookup_zipIdx (columns : List Nat) (start column : Nat) :
    (∀ i, (columns.zipIdx start).lookup column = some i →
      start ≤ i ∧ columns[i - start]? = some column) ∧
    ((columns.zipIdx start).lookup column = none → column ∉ columns) := by
  induction columns generalizing start with
  | nil => simp
  | cons first rest ih =>
      rw [List.zipIdx_cons, List.lookup_cons]
      by_cases same : column = first
      · subst same
        simp
      · have apart : (column == first) = false := by simpa using same
        rw [apart]
        obtain ⟨found, missing⟩ := ih (start + 1)
        constructor
        · intro i here
          have ⟨le, at_⟩ := found i here
          refine ⟨by omega, ?_⟩
          rw [show i - start = (i - (start + 1)) + 1 by omega, List.getElem?_cons_succ]
          exact at_
        · intro none
          simpa [same] using missing none

end Conditions

/-! ## The output columns of the build side -/

section Rhs

variable {rights : List Nat} {rhs : RhsColumns} {done : List Nat}

/-- The numbers put out so far name the columns of the projection, in the order of the keys
followed by the payload. -/
def Names (rights : List Nat) (rhs : RhsColumns) (done : List Nat) : Prop :=
  (rhs.output.map fun i => (rights ++ rhs.payload)[i]?) = done.map some ∧
    ∀ column ∈ rhs.payload, column ∈ done

theorem names_addRhsColumn (names : Names rights rhs done) (column : Nat) :
    Names rights (addRhsColumn rights.length (rights.zipIdx) rhs column) (done ++ [column]) := by
  obtain ⟨output, payload⟩ := names
  cases found : (rights.zipIdx).lookup column with
  | some i =>
      have here := ((lookup_zipIdx rights 0 column).1 i found).2
      rw [Nat.sub_zero] at here
      have at_ : (rights ++ rhs.payload)[i]? = some column := by
        rw [List.getElem?_append_left (List.getElem?_eq_some_iff.mp here).1]
        exact here
      constructor
      · simp [addRhsColumn, found, output, at_]
      · intro other member
        simp only [addRhsColumn, found] at member
        exact List.mem_append_left _ (payload other member)
  | none =>
      have kept : (rhs.output.map fun i => (rights ++ (rhs.payload ++ [column]))[i]?) =
          rhs.output.map fun i => (rights ++ rhs.payload)[i]? := by
        refine List.map_congr_left fun i member => ?_
        have some_ : (rights ++ rhs.payload)[i]? ∈ done.map some :=
          output ▸ List.mem_map_of_mem member
        obtain ⟨other, _, here⟩ := List.mem_map.mp some_
        rw [← List.append_assoc,
          List.getElem?_append_left (List.getElem?_eq_some_iff.mp here.symm).1]
      constructor
      · have last : (rights ++ (rhs.payload ++ [column]))[rights.length + rhs.payload.length]? =
            some column := by
          rw [← List.append_assoc, ← List.length_append, List.getElem?_concat_length]
        simp only [addRhsColumn, found, List.map_append, kept, output, List.map_cons, last,
          List.map_nil]
      · intro other member
        simp only [addRhsColumn, found, List.mem_append, List.mem_singleton] at member
        rw [List.mem_append, List.mem_singleton]
        exact member.imp_left (payload other)

theorem names_foldl (projection : List Nat) (rights : List Nat) :
    Names rights (projection.foldl (addRhsColumn rights.length rights.zipIdx) ⟨[], []⟩)
      projection := by
  have run (columns : List Nat) (rhs : RhsColumns) (done : List Nat)
      (names : Names rights rhs done) :
      Names rights (columns.foldl (addRhsColumn rights.length rights.zipIdx) rhs)
        (done ++ columns) := by
    induction columns generalizing rhs done with
    | nil => simpa using names
    | cons column rest ih =>
        have later := ih _ _ (names_addRhsColumn names column)
        rwa [List.append_assoc, List.singleton_append] at later
  simpa using run projection ⟨[], []⟩ [] ⟨rfl, by simp⟩

end Rhs

/-! ## The sink -/

section Sink

variable {α : Type} {relation : List α}

def columnAt (relation : List α) (index : Option Nat) : Option α :=
  index.bind fun i => relation[i]?

theorem keyColumn_ok {index : Option Nat} {c : α} (here : columnAt relation index = some c) :
    keyColumn relation index = .ok c := by
  cases index with
  | none => cases here
  | some i => exact get_ok here

theorem handleMaterializeExpression_refused {type : GPUColumnType}
    (refused : materializable type = false) :
    ∃ message, handleMaterializeExpression type = some message := by
  unfold handleMaterializeExpression
  rw [refused, if_neg Bool.false_ne_true]
  cases type <;> exact ⟨_, rfl⟩

theorem materializedKey_cases (type : α → GPUColumnType) {index : Option Nat}
    (inside : ∀ i, index = some i → i < relation.length) :
    ((∃ message, materializedKey type relation index = .error (.raised message)) ∧
        ∀ c, columnAt relation index = some c → materializable (type c) = false) ∨
      ∃ c, materializedKey type relation index = .ok c ∧ columnAt relation index = some c ∧
        materializable (type c) = true := by
  cases index with
  | none => exact .inl ⟨⟨_, rfl⟩, fun c here => by cases here⟩
  | some i =>
      have here : columnAt relation (some i) = some (relation.get ⟨i, inside i rfl⟩) := by
        simp [columnAt]
      cases refused : materializable (type (relation.get ⟨i, inside i rfl⟩)) with
      | true =>
          refine .inr ⟨_, ?_, here, refused⟩
          simp only [materializedKey, keyColumn_ok here, handleMaterializeExpression, refused,
            if_true, throwIf, bind, Except.bind]
      | false =>
          refine .inl ⟨?_, fun c there => ?_⟩
          · obtain ⟨message, failed⟩ := handleMaterializeExpression_refused refused
            exact ⟨message, by
              simp only [materializedKey, keyColumn_ok here, failed, throwIf, bind, Except.bind]⟩
          · rw [← Option.some.inj (here.symm.trans there)]
            exact refused

/-- The keys of all conditions are materialized, or one of them is refused. -/
theorem mapM_cases (type : α → GPUColumnType) (side : JoinCondition → Option Nat)
    (conditions : List JoinCondition)
    (inside : ∀ condition ∈ conditions, ∀ i, side condition = some i → i < relation.length) :
    ((∃ message, conditions.mapM (fun condition => materializedKey type relation (side condition)) =
          .error (.raised message)) ∧
        ∃ condition ∈ conditions, ∀ c, columnAt relation (side condition) = some c →
          materializable (type c) = false) ∨
      ∃ keys, conditions.mapM (fun condition => materializedKey type relation (side condition)) =
          .ok keys ∧
        keys.map some = (conditions.map fun condition => columnAt relation (side condition)) ∧
        ∀ condition ∈ conditions, ∃ c, columnAt relation (side condition) = some c ∧
          materializable (type c) = true := by
  induction conditions with
  | nil => exact .inr ⟨[], rfl, rfl, by simp⟩
  | cons condition rest ih =>
      have here := inside condition List.mem_cons_self
      have later := ih fun other member => inside other (List.mem_cons_of_mem _ member)
      rw [List.mapM_cons]
      rcases materializedKey_cases type here with ⟨⟨message, failed⟩, refused⟩ | ⟨c, ran, at_, kept⟩
      · exact .inl ⟨⟨message, by rw [failed]; rfl⟩, condition, List.mem_cons_self, refused⟩
      · rcases later with ⟨⟨message, failed⟩, other, member, refused⟩ | ⟨keys, done, same, all⟩
        · exact .inl ⟨⟨message, by rw [ran, failed]; rfl⟩, other, List.mem_cons_of_mem _ member,
            refused⟩
        · refine .inr ⟨c :: keys, by rw [ran, done]; rfl, by simp [at_, same], ?_⟩
          rw [List.forall_mem_cons]
          exact ⟨⟨c, at_, kept⟩, all⟩

/-- The conditions paired with their key columns. -/
def Paired (relation : List α) (pairs : List (JoinCondition × α)) : Prop :=
  ∀ pair ∈ pairs, columnAt relation pair.1.right = some pair.2

theorem paired_zip {conditions : List JoinCondition} {keys : List α}
    (same : keys.map some = conditions.map fun condition => columnAt relation condition.right) :
    Paired relation (conditions.zip keys) := by
  induction conditions generalizing keys with
  | nil => simp [Paired]
  | cons condition rest ih =>
      cases keys with
      | nil => simp at same
      | cons key keys =>
          simp only [List.map_cons, List.cons.injEq] at same
          intro pair member
          rcases List.mem_cons.mp member with rfl | later
          · exact same.1.symm
          · exact ih same.2 pair later

theorem storeKeys_ok (pairs : List (JoinCondition × α)) (paired : Paired relation pairs)
    (before after keysBefore keysAfter : List (Option α))
    (level : before.length = keysBefore.length) :
    storeKeys relation before.length pairs
        ⟨before ++ List.replicate pairs.length none ++ after,
          keysBefore ++ List.replicate pairs.length none ++ keysAfter⟩ =
      .ok ⟨before ++ pairs.map (fun pair => some pair.2) ++ after,
        keysBefore ++ pairs.map (fun pair => some pair.2) ++ keysAfter⟩ := by
  induction pairs generalizing before keysBefore with
  | nil => simp [storeKeys]
  | cons pair rest ih =>
      obtain ⟨condition, key⟩ := pair
      have here := keyColumn_ok (paired (condition, key) List.mem_cons_self)
      have later := ih (fun other member => paired other (List.mem_cons_of_mem _ member))
        (before ++ [some key]) (keysBefore ++ [some key]) (by simp [level])
      rw [List.length_append, List.length_singleton] at later
      simp only [storeKeys, here, bind, Except.bind, List.length_cons, List.replicate_succ,
        List.append_assoc, List.cons_append, setAt_append]
      rw [level, setAt_append, ← level]
      simpa using later

/-- Without room for all keys the loop runs past the end. -/
theorem storeKeys_error (pairs : List (JoinCondition × α)) (paired : Paired relation pairs)
    (condIdx : Nat) (build : BuildSide α) (within : condIdx ≤ build.materializedBuildKey.length)
    (short : build.materializedBuildKey.length < condIdx + pairs.length) :
    storeKeys relation condIdx pairs build = .error .outOfRange := by
  induction pairs generalizing condIdx build with
  | nil =>
      rw [List.length_nil] at short
      omega
  | cons pair rest ih =>
      obtain ⟨condition, key⟩ := pair
      have here := keyColumn_ok (paired (condition, key) List.mem_cons_self)
      have rest_ : Paired relation rest := fun other member =>
        paired other (List.mem_cons_of_mem _ member)
      simp only [storeKeys, here, bind, Except.bind]
      by_cases first : condIdx < build.hashTableResult.length
      · have kept : setAt build.hashTableResult condIdx key =
            .ok (build.hashTableResult.set condIdx (some key)) := if_pos first
        simp only [kept]
        by_cases room : condIdx < build.materializedBuildKey.length
        · have stored : setAt build.materializedBuildKey condIdx key =
              .ok (build.materializedBuildKey.set condIdx (some key)) := if_pos room
          simp only [stored]
          refine ih rest_ (condIdx + 1) _ ?_ ?_
          · rw [List.length_set]
            exact room
          · rw [List.length_cons] at short
            rw [List.length_set]
            omega
        · have past : setAt build.materializedBuildKey condIdx key = .error .outOfRange :=
            if_neg room
          simp only [past]
      · have past : setAt build.hashTableResult condIdx key = .error .outOfRange := if_neg first
        simp only [past]

end Sink

/-! ## The columns the plan asks for -/

section Plan

variable {α : Type} {plan : Plan} {join : HashJoin} {left right : List α}
variable {type : α → GPUColumnType} {cudf : List α → List α → Option String}

def Plan.lhs (plan : Plan) : List Nat := fullProjection plan.leftProjection plan.leftColumns

def Plan.rhs (plan : Plan) : List Nat := fullProjection plan.rightProjection plan.rightColumns

/-- The build columns of the conditions in their final order. -/
def Plan.rights (plan : Plan) : List Nat := buildIndices (reorderConditions plan.conditions)

/-- The number of columns the plan gives an operator of the join type. -/
def Plan.askedTypes (plan : Plan) : Nat :=
  match plan.joinType with
  | .semi => plan.lhs.length
  | .anti => plan.lhs.length
  | .mark => plan.lhs.length + 1
  | .rightSemi => plan.rhs.length
  | .rightAnti => plan.rhs.length
  | _ => plan.lhs.length + plan.rhs.length

/-- What the planner promises. -/
structure WellFormed (plan : Plan) : Prop where
  conditions : plan.conditions ≠ []
  lefts : ∀ condition ∈ plan.conditions, ∀ i, condition.left = some i → i < plan.leftColumns
  rights : ∀ condition ∈ plan.conditions, ∀ i, condition.right = some i → i < plan.rightColumns
  leftProjection : ∀ i ∈ plan.leftProjection, i < plan.leftColumns
  rightProjection : ∀ i ∈ plan.rightProjection, i < plan.rightColumns
  types : plan.types = plan.askedTypes

/-- All keys of the build side are columns. -/
structure Referring (plan : Plan) : Prop extends WellFormed plan where
  bound : ∀ condition ∈ plan.conditions, condition.right ≠ none

def asked (wrap : α → Output α) (relation : List α) (projection : List Nat) :
    List (Option (Output α)) :=
  projection.map fun i => relation[i]?.map wrap

def askedOfExecute (plan : Plan) (left right : List α) : List (Option (Output α)) :=
  match plan.joinType with
  | .semi => asked .column left plan.lhs
  | .anti => asked .column left plan.lhs
  | .mark => asked .column left plan.lhs ++ [some .mark]
  | .rightSemi => asked .emptyLike right plan.rhs
  | .rightAnti => asked .emptyLike right plan.rhs
  | _ => asked .column left plan.lhs ++ asked .column right plan.rhs

/-- The left columns of a build row without a match are NULL. -/
def askedOfGetData (plan : Plan) (right : List α) : List (Option (Output α)) :=
  match plan.joinType with
  | .right => List.replicate plan.lhs.length (some .null) ++ asked .column right plan.rhs
  | .rightSemi => asked .column right plan.rhs
  | .rightAnti => asked .column right plan.rhs
  | _ => []

theorem fullProjection_lt {projection : List Nat} {columns : Nat}
    (within : ∀ i ∈ projection, i < columns) :
    ∀ i ∈ fullProjection projection columns, i < columns := by
  intro i member
  rw [fullProjection] at member
  split at member
  · exact List.mem_range.mp member
  · exact within i member

theorem checkTypes_ok {projection : List Nat} {columns : Nat}
    (within : ∀ i ∈ projection, i < columns) : checkTypes projection columns = .ok () := by
  rw [checkTypes, if_pos (by simpa using within)]

/-- The join that the constructor leaves. -/
structure Constructed (plan : Plan) (join : HashJoin) : Prop where
  joinType : join.joinType = plan.joinType
  conditions : join.conditions = reorderConditions plan.conditions
  lhsOutput : join.lhsOutput = plan.lhs
  types : join.types = plan.types
  keySize : join.materializedBuildKeySize =
    (buildColumnsInConditions 0 (reorderConditions plan.conditions) []).length
  resultSize : join.hashTableResultSize = join.materializedBuildKeySize + join.payload.length
  withoutRhs : keysOnly plan.joinType = true → join.payload = [] ∧ join.rhsOutput = []
  rhs : keysOnly plan.joinType = false →
    (⟨join.payload, join.rhsOutput⟩ : RhsColumns) =
      plan.rhs.foldl (addRhsColumn (reorderConditions plan.conditions).length
        (buildColumnsInConditions 0 (reorderConditions plan.conditions) [])) ⟨[], []⟩

theorem construct_ok (wellFormed : WellFormed plan) :
    ∃ join, construct plan = .ok join ∧ Constructed plan join := by
  have lhs : checkTypes (fullProjection plan.leftProjection plan.leftColumns) plan.leftColumns =
      .ok () := checkTypes_ok (fullProjection_lt wellFormed.leftProjection)
  have rhs : checkTypes (fullProjection plan.rightProjection plan.rightColumns) plan.rightColumns =
      .ok () := checkTypes_ok (fullProjection_lt wellFormed.rightProjection)
  simp only [construct, lhs, rhs, bind, Except.bind]
  cases keys : keysOnly plan.joinType with
  | true =>
      refine ⟨_, if_pos rfl, ?_⟩
      constructor <;> simp [Plan.lhs, keys]
  | false =>
      refine ⟨_, if_neg Bool.false_ne_true, ?_⟩
      constructor <;> simp [Plan.lhs, Plan.rhs, keys]

theorem right_bound (wellFormed : Referring plan) :
    ∀ condition ∈ reorderConditions plan.conditions,
      ∃ i < plan.rightColumns, condition.right = some i := by
  intro condition member
  have planned := (reorderConditions_perm _).mem_iff.mp member
  obtain ⟨i, here⟩ := Option.ne_none_iff_exists'.mp (wellFormed.bound condition planned)
  exact ⟨i, wellFormed.rights condition planned i here, here⟩

theorem map_right (right : List α) (wellFormed : Referring plan) :
    (reorderConditions plan.conditions).map (fun condition => columnAt right condition.right) =
      plan.rights.map fun i => right[i]? := by
  have bound := right_bound wellFormed
  rw [Plan.rights, buildIndices]
  generalize reorderConditions plan.conditions = conditions at bound ⊢
  induction conditions with
  | nil => rfl
  | cons condition rest ih =>
      obtain ⟨i, _, here⟩ := bound condition List.mem_cons_self
      have later := ih fun other member => bound other (List.mem_cons_of_mem _ member)
      simpa [here, columnAt] using later

theorem rights_length (wellFormed : Referring plan) :
    plan.rights.length = (reorderConditions plan.conditions).length := by
  have same := congrArg List.length (map_right ([] : List Nat) wellFormed)
  simpa using same.symm

theorem rights_nodup_iff : plan.rights.Nodup ↔ (buildIndices plan.conditions).Nodup :=
  ((reorderConditions_perm plan.conditions).filterMap JoinCondition.right).nodup_iff

/-! ## The run of the join -/

/-- What `Sink` has stored: each number has the column it stands for. -/
structure Stored (plan : Plan) (join : HashJoin) (right : List α) (build : BuildSide α) where
  columns : List α
  keys : List α
  result : build.hashTableResult = columns.map some
  resultColumns : columns.map some = (plan.rights ++ join.payload).map fun i => right[i]?
  materialized : build.materializedBuildKey = keys.map some
  keyCount : keys.length = join.conditions.length

/-- What `Sink` finds before it stores a column: a key that cannot be materialized, or a hash
table that cannot be built. -/
def SinkRefuses (type : α → GPUColumnType) (plan : Plan) (right : List α) : Prop :=
  (∃ condition ∈ plan.conditions, ∀ c, columnAt right condition.right = some c →
      materializable (type c) = false) ∨
    plan.joinType ≠ .inner ∧
      ∃ condition, (reorderConditions plan.conditions).head? = some condition ∧
        ∃ c, columnAt right condition.right = some c ∧
          handleBuildExpression (reorderConditions plan.conditions) plan.joinType (type c) ≠ none

theorem right_inside (wellFormed : WellFormed plan) (size : right.length = plan.rightColumns) :
    ∀ condition ∈ reorderConditions plan.conditions,
      ∀ i, condition.right = some i → i < right.length := by
  intro condition member i here
  rw [size]
  exact wellFormed.rights condition ((reorderConditions_perm _).mem_iff.mp member) i here

theorem sink_refused (wellFormed : WellFormed plan) (constructed : Constructed plan join)
    (size : right.length = plan.rightColumns) (refused : SinkRefuses type plan right) :
    ∃ message, sink type join right = .error (.raised message) := by
  rcases mapM_cases type JoinCondition.right _ (right_inside wellFormed size) with
    ⟨⟨message, failed⟩, -⟩ | ⟨keys, ran, same, all⟩
  · exact ⟨message, by simp only [sink, constructed.conditions, failed, bind, Except.bind]⟩
  · have later : plan.joinType ≠ .inner ∧ _ := refused.resolve_left <| by
      rintro ⟨condition, member, wrong⟩
      obtain ⟨c, here, kept⟩ := all condition ((reorderConditions_perm _).mem_iff.mpr member)
      exact Bool.noConfusion ((wrong c here).symm.trans kept)
    obtain ⟨notInner, condition, head, c, here, stops⟩ := later
    obtain ⟨message, stops⟩ := Option.ne_none_iff_exists'.mp stops
    have first : get keys 0 = .ok c := by
      refine get_ok ?_
      have heads := congrArg List.head? same
      rw [List.head?_map, List.head?_map, head, Option.map_some, here] at heads
      cases keys with
      | nil => cases heads
      | cons key rest => exact Option.some.inj heads
    exact ⟨message, by simp only [sink, constructed.conditions, constructed.joinType, ran, first,
      if_neg notInner, stops, throwIf, bind, Except.bind]⟩

theorem referring_of_accepted (wellFormed : WellFormed plan)
    (accepted : ¬ SinkRefuses type plan right) : Referring plan where
  toWellFormed := wellFormed
  bound condition member none := by
    refine accepted (.inl ⟨condition, member, fun c here => ?_⟩)
    rw [none] at here
    cases here

/-- The keys of a build that is not refused. -/
theorem accepted_keys (wellFormed : WellFormed plan) (constructed : Constructed plan join)
    (size : right.length = plan.rightColumns) (accepted : ¬ SinkRefuses type plan right) :
    ∃ keys first, (reorderConditions plan.conditions).mapM
        (fun condition => materializedKey type right condition.right) = .ok keys ∧
      keys.map some = ((reorderConditions plan.conditions).map fun condition =>
        columnAt right condition.right) ∧ get keys 0 = .ok first ∧
      (if join.joinType = .inner then none else handleBuildExpression
        (reorderConditions plan.conditions) join.joinType (type first)) = none := by
  rcases mapM_cases type JoinCondition.right _ (right_inside wellFormed size) with
    ⟨-, condition, member, wrong⟩ | ⟨keys, ran, same, -⟩
  · exact absurd (.inl ⟨condition, (reorderConditions_perm _).mem_iff.mp member, wrong⟩) accepted
  · cases shape : reorderConditions plan.conditions with
    | nil =>
        have none := (reorderConditions_perm plan.conditions).symm
        rw [shape] at none
        exact absurd none.eq_nil wellFormed.conditions
    | cons condition rest =>
        rw [shape] at ran same
        cases keys with
        | nil => cases same
        | cons first others =>
            have here := (List.cons.inj same).1
            refine ⟨first :: others, first, ran, same, rfl, ?_⟩
            rw [constructed.joinType]
            split
            · rfl
            · by_contra stops
              rw [← shape] at stops
              exact accepted (.inr ⟨‹_›, condition, by rw [shape]; rfl, first, here.symm, stops⟩)

/-- A build column under two conditions has no room for its second key. -/
theorem sink_stops (wellFormed : Referring plan) (constructed : Constructed plan join)
    (size : right.length = plan.rightColumns) (accepted : ¬ SinkRefuses type plan right)
    (repeated : ¬ plan.rights.Nodup) : sink type join right = .error .outOfRange := by
  obtain ⟨keys, first, ran, same, head, built⟩ :=
    accepted_keys wellFormed.toWellFormed constructed size accepted
  have length : keys.length = (reorderConditions plan.conditions).length := by
    simpa using congrArg List.length same
  have short := buildColumns_length_lt repeated
  rw [← Plan.rights, rights_length wellFormed, ← constructed.keySize] at short
  have failed := storeKeys_error _ (paired_zip same) 0
    ⟨List.replicate join.hashTableResultSize none,
      List.replicate join.materializedBuildKeySize none⟩ (Nat.zero_le _)
    (by simpa [length] using short)
  simp only [sink, constructed.conditions, ran, head, built, failed, throwIf, bind, Except.bind]

theorem names_payload (constructed : Constructed plan join)
    (entries : buildColumnsInConditions 0 (reorderConditions plan.conditions) [] =
      plan.rights.zipIdx) (length : plan.rights.length = (reorderConditions plan.conditions).length)
    (withRhs : keysOnly plan.joinType = false) :
    Names plan.rights ⟨join.payload, join.rhsOutput⟩ plan.rhs := by
  rw [constructed.rhs withRhs, entries, ← length]
  exact names_foldl plan.rhs plan.rights

theorem entries_eq (wellFormed : Referring plan) (distinct : plan.rights.Nodup) :
    buildColumnsInConditions 0 (reorderConditions plan.conditions) [] = plan.rights.zipIdx := by
  have bound : ∀ condition ∈ reorderConditions plan.conditions, condition.right ≠ none := by
    intro condition member none
    obtain ⟨i, _, here⟩ := right_bound wellFormed condition member
    simp [none] at here
  rw [buildColumns_of_nodup (reorderConditions plan.conditions) 0 [] bound distinct]
  exact List.nil_append _

theorem payload_lt (wellFormed : Referring plan) (constructed : Constructed plan join)
    (distinct : plan.rights.Nodup) : ∀ i ∈ join.payload, i < plan.rightColumns := by
  intro i member
  cases keys : keysOnly plan.joinType with
  | true =>
      rw [(constructed.withoutRhs keys).1] at member
      cases member
  | false =>
      have names := names_payload constructed (entries_eq wellFormed distinct)
        (rights_length wellFormed) keys
      exact fullProjection_lt wellFormed.rightProjection i (names.2 i member)

theorem rights_lt (wellFormed : Referring plan) : ∀ i ∈ plan.rights, i < plan.rightColumns := by
  intro i member
  obtain ⟨condition, inside, here⟩ := List.mem_filterMap.mp member
  obtain ⟨j, within, there⟩ := right_bound wellFormed condition inside
  rw [here, Option.some_inj] at there
  exact there ▸ within

theorem exists_columns (indices : List Nat) (within : ∀ i ∈ indices, i < right.length) :
    ∃ columns : List α, columns.map some = indices.map fun i => right[i]? := by
  induction indices with
  | nil => exact ⟨[], rfl⟩
  | cons i rest ih =>
      obtain ⟨columns, same⟩ := ih fun j member => within j (List.mem_cons_of_mem _ member)
      have here : i < right.length := within i List.mem_cons_self
      exact ⟨right.get ⟨i, here⟩ :: columns, by simp [same, here]⟩

theorem reads_get (indices : List Nat) (within : ∀ i ∈ indices, i < right.length) :
    ∀ i ∈ indices, ∃ c, right[i]? = some c ∧ get right i = .ok c := by
  intro i member
  have here : right[i]? = some (right.get ⟨i, within i member⟩) := by simp
  exact ⟨_, here, get_ok here⟩

theorem sink_ok (wellFormed : Referring plan) (constructed : Constructed plan join)
    (size : right.length = plan.rightColumns) (accepted : ¬ SinkRefuses type plan right)
    (distinct : plan.rights.Nodup) :
    ∃ build, sink type join right = .ok build ∧ Nonempty (Stored plan join right build) := by
  obtain ⟨keys, first, ran, same, head, built⟩ :=
    accepted_keys wellFormed.toWellFormed constructed size accepted
  have length : keys.length = (reorderConditions plan.conditions).length := by
    simpa using congrArg List.length same
  have entries := congrArg List.length (entries_eq wellFormed distinct)
  rw [List.length_zipIdx, rights_length wellFormed, ← constructed.keySize] at entries
  have pairs : ((reorderConditions plan.conditions).zip keys).map (fun pair => some pair.2) =
      keys.map some := by
    rw [← List.map_snd_zip (Nat.le_of_eq length), List.map_map]
    rw [List.map_snd_zip (Nat.le_of_eq length)]
    rfl
  have count : ((reorderConditions plan.conditions).zip keys).length =
      (reorderConditions plan.conditions).length := by
    rw [List.length_zip, length, Nat.min_self]
  have stored := storeKeys_ok _ (paired_zip same) [] (List.replicate join.payload.length none) [] []
    rfl
  simp only [pairs, List.nil_append, List.append_nil, List.length_nil,
    List.replicate_append_replicate,
    count] at stored
  have payload := copyColumns_ok (get right) (fun i => right[i]?) join.payload
    (reads_get join.payload (size ▸ payload_lt wellFormed constructed distinct))
    (keys.map some) []
  rw [List.append_nil, List.append_nil, List.length_map, length] at payload
  have within : ∀ i ∈ plan.rights ++ join.payload, i < right.length := by
    intro i member
    rw [size]
    rcases List.mem_append.mp member with key | payload
    · exact rights_lt wellFormed i key
    · exact payload_lt wellFormed constructed distinct i payload
  obtain ⟨columns, columnsSame⟩ := exists_columns (plan.rights ++ join.payload) within
  have result : keys.map some ++ join.payload.map (fun i => right[i]?) = columns.map some := by
    rw [columnsSame, List.map_append, same, map_right right wellFormed]
  refine ⟨⟨keys.map some ++ join.payload.map fun i => right[i]?, keys.map some⟩, ?_, ⟨{
    columns := columns
    keys := keys
    result := result
    resultColumns := columnsSame
    materialized := rfl
    keyCount := by rw [length, constructed.conditions] }⟩⟩
  simp only [sink, constructed.conditions, constructed.resultSize, entries, ran, head, built,
    throwIf, bind, Except.bind, stored, payload]

theorem lhs_lt (size : left.length = plan.leftColumns) (wellFormed : WellFormed plan) :
    ∀ i ∈ plan.lhs, i < left.length := by
  intro i member
  rw [size]
  exact fullProjection_lt wellFormed.leftProjection i member

theorem rhs_lt (size : right.length = plan.rightColumns) (wellFormed : WellFormed plan) :
    ∀ i ∈ plan.rhs, i < right.length := by
  intro i member
  rw [size]
  exact fullProjection_lt wellFormed.rightProjection i member

theorem lhs_written (size : left.length = plan.leftColumns) (wellFormed : WellFormed plan)
    (n : Nat) :
    copyColumns (leftColumn left) 0 plan.lhs (List.replicate (plan.lhs.length + n) none) =
      .ok (asked .column left plan.lhs ++ List.replicate n none) := by
  have written := copyColumns_ok (leftColumn left)
    (fun i => left[i]?.map Output.column) plan.lhs (fun i member => by
      obtain ⟨c, here, readable⟩ := reads_get plan.lhs (lhs_lt size wellFormed) i member
      exact ⟨.column c, by rw [here]; rfl, by rw [leftColumn, readable]; rfl⟩) []
    (List.replicate n none)
  rw [List.nil_append, List.nil_append, List.replicate_append_replicate] at written
  exact written

/-- What is read under the numbers put out is what the projection asks for. -/
theorem rhs_written {build : BuildSide α} (stored : Stored plan join right build)
    (names : Names plan.rights ⟨join.payload, join.rhsOutput⟩ plan.rhs)
    (size : right.length = plan.rightColumns) (wellFormed : WellFormed plan)
    (wrap : α → Output α) (before : List (Option (Output α))) :
    copyColumns (fun i => (getWritten build.hashTableResult i).map wrap) before.length
        join.rhsOutput (before ++ List.replicate plan.rhs.length none) =
      .ok (before ++ asked wrap right plan.rhs) := by
  have lengths : join.rhsOutput.length = plan.rhs.length := by
    simpa using congrArg List.length names.1
  have written := copyColumns_ok (fun i => (getWritten build.hashTableResult i).map wrap)
    (fun i => ((plan.rights ++ join.payload)[i]?).bind fun column =>
      right[column]?.map wrap) join.rhsOutput (fun i member => by
        have named : (plan.rights ++ join.payload)[i]? ∈ plan.rhs.map some :=
          names.1 ▸ List.mem_map_of_mem member
        obtain ⟨column, asked, here⟩ := List.mem_map.mp named
        have inRange := rhs_lt size wellFormed column asked
        have found : build.hashTableResult[i]? = some (some (right.get ⟨column, inRange⟩)) := by
          rw [stored.result, stored.resultColumns, List.getElem?_map, ← here]
          simp
        refine ⟨wrap (right.get ⟨column, inRange⟩), ?_, ?_⟩
        · simp only [← here, Option.bind_some, List.getElem?_eq_getElem inRange]
          rfl
        · rw [getWritten_ok found]
          rfl) before []
  rw [List.append_nil, List.append_nil, lengths] at written
  rw [written, asked]
  have values := congrArg (List.map fun column => column.bind fun i => right[i]?.map wrap) names.1
  simp only [List.map_map, Function.comp_def, Option.bind_some] at values
  rw [values]

/-- The join types for which a hash table is built, or none is needed. -/
def builds : JoinType → Bool
  | .inner | .semi | .mark | .right | .rightSemi | .rightAnti => true
  | _ => false

theorem builds_of_accepted (wellFormed : WellFormed plan) (constructed : Constructed plan join)
    (size : right.length = plan.rightColumns) (accepted : ¬ SinkRefuses type plan right) :
    builds plan.joinType = true := by
  obtain ⟨keys, first, -, -, -, built⟩ := accepted_keys wellFormed constructed size accepted
  rw [constructed.joinType] at built
  split at built
  case isTrue inner => rw [inner]; rfl
  case isFalse =>
    unfold handleBuildExpression at built
    split_ifs at built
    cases shape : plan.joinType <;> simp only [shape, reduceCtorEq] at built <;> rfl

theorem left_inside (wellFormed : WellFormed plan) (size : left.length = plan.leftColumns) :
    ∀ condition ∈ reorderConditions plan.conditions,
      ∀ i, condition.left = some i → i < left.length := by
  intro condition member i here
  rw [size]
  exact wellFormed.lefts condition ((reorderConditions_perm _).mem_iff.mp member) i here

theorem outputSize_eq (constructed : Constructed plan join) (wellFormed : WellFormed plan)
    (built : builds plan.joinType = true)
    (lengths : keysOnly plan.joinType = false → join.rhsOutput.length = plan.rhs.length) :
    outputSize join = some join.types := by
  rw [constructed.types, wellFormed.types, outputSize, Plan.askedTypes, constructed.joinType,
    constructed.lhsOutput]
  cases shape : plan.joinType <;> simp [shape, keysOnly, builds] at built lengths ⊢ <;>
    exact lengths

/-- The probe keys are there, or the join raises. -/
theorem probeKeys_cases (type : α → GPUColumnType) (wellFormed : WellFormed plan)
    (size : left.length = plan.leftColumns) :
    (∃ message, (reorderConditions plan.conditions).mapM
        (fun condition => materializedKey type left condition.left) = .error (.raised message)) ∨
      ∃ keys first, (reorderConditions plan.conditions).mapM
          (fun condition => materializedKey type left condition.left) = .ok keys ∧
        get keys 0 = .ok first := by
  rcases mapM_cases type JoinCondition.left _ (left_inside wellFormed size) with
    ⟨failed, -⟩ | ⟨keys, ran, same, -⟩
  · exact .inl failed
  · cases keys with
    | cons first rest => exact .inr ⟨_, first, ran, rfl⟩
    | nil =>
        have none := (reorderConditions_perm plan.conditions).symm
        rw [List.map_eq_nil_iff.mp same.symm] at none
        exact absurd none.eq_nil wellFormed.conditions

theorem execute_ok (type : α → GPUColumnType) (cudf : List α → List α → Option String)
    (left : List α) {build : BuildSide α} (constructed : Constructed plan join)
    (wellFormed : WellFormed plan) (built : builds plan.joinType = true)
    (stored : Stored plan join right build)
    (names : keysOnly plan.joinType = false →
      Names plan.rights ⟨join.payload, join.rhsOutput⟩ plan.rhs)
    (sizeLeft : left.length = plan.leftColumns) (sizeRight : right.length = plan.rightColumns) :
    Returns (execute type cudf join build left) (askedOfExecute plan left right) := by
  have lengths : keysOnly plan.joinType = false → join.rhsOutput.length = plan.rhs.length := by
    intro withRhs
    simpa using congrArg List.length (names withRhs).1
  have lhs := lhs_written sizeLeft wellFormed
  have lhsOnly := lhs 0
  have count : (asked Output.column left plan.lhs).length = plan.lhs.length := List.length_map _
  have locked : (List.range build.hashTableResult.length).mapM
      (getWritten build.hashTableResult) = .ok stored.columns :=
    getWritten_all stored.result (by rw [stored.result, List.length_map])
  have materialized : (List.range join.conditions.length).mapM
      (getWritten build.materializedBuildKey) = .ok stored.keys :=
    getWritten_all stored.materialized stored.keyCount.symm
  have both (withRhs : keysOnly plan.joinType = false) :
      buildColumns join build (asked .column left plan.lhs ++
          List.replicate plan.rhs.length none) =
        .ok (asked .column left plan.lhs ++ asked .column right plan.rhs) := by
    have written := rhs_written stored (names withRhs) sizeRight wellFormed Output.column
      (asked Output.column left plan.lhs)
    rw [count] at written
    simp only [buildColumns, locked, constructed.lhsOutput, bind, Except.bind]
    exact written
  rw [execute, if_neg (by rw [outputSize_eq constructed wellFormed built lengths]; simp)]
  have types := wellFormed.types
  rw [Plan.askedTypes] at types
  rw [Nat.add_zero, List.replicate_zero, List.append_nil] at lhsOnly
  simp only [constructed.conditions, constructed.joinType, constructed.lhsOutput,
    constructed.types, askedOfExecute] at materialized ⊢
  rcases probeKeys_cases type wellFormed sizeLeft with ⟨message, failed⟩ | ⟨keys, first, ran, head⟩
  · rw [failed]
    trivial
  · refine Returns.bind (.of_eq ran) (Returns.bind (.of_eq head) ?_)
    cases shape : plan.joinType with
    | left => simp [shape, builds] at built
    | single => simp [shape, builds] at built
    | outer => simp [shape, builds] at built
    | anti => simp [shape, builds] at built
    | inner =>
        simp only [shape] at types
        rw [types]
        refine Returns.bind (.of_eq materialized) (Returns.bind (returns_throwIf _) ?_)
        exact Returns.bind (.of_eq (lhs _)) (.of_eq (both (by rw [shape]; rfl)))
    | right =>
        simp only [shape] at types
        rw [types]
        refine Returns.bind (returns_throwIf _) ?_
        exact Returns.bind (.of_eq (lhs _)) (.of_eq (both (by rw [shape]; rfl)))
    | semi =>
        simp only [shape] at types
        rw [types]
        exact Returns.bind (returns_throwIf _) (.of_eq lhsOnly)
    | mark =>
        simp only [shape] at types
        have last := setAt_append (asked Output.column left plan.lhs) none [] Output.mark
        rw [count] at last
        rw [types]
        refine Returns.bind (returns_throwIf _) ?_
        exact Returns.bind (.of_eq (lhs 1)) (.of_eq last)
    | rightSemi =>
        simp only [shape] at types
        rw [types]
        exact Returns.bind (returns_throwIf _) (.of_eq (rhs_written stored
          (names (by rw [shape]; rfl)) sizeRight wellFormed Output.emptyLike []))
    | rightAnti =>
        simp only [shape] at types
        rw [types]
        exact Returns.bind (returns_throwIf _) (.of_eq (rhs_written stored
          (names (by rw [shape]; rfl)) sizeRight wellFormed Output.emptyLike []))

theorem getData_ok {build : BuildSide α} (constructed : Constructed plan join)
    (wellFormed : WellFormed plan) (stored : Stored plan join right build)
    (names : Names plan.rights ⟨join.payload, join.rhsOutput⟩ plan.rhs)
    (size : right.length = plan.rightColumns) (scanning : scans plan.joinType = true) :
    getData join build = .ok (askedOfGetData plan right) := by
  have written := rhs_written stored names size wellFormed Output.column
  have types := wellFormed.types
  have lengths : join.rhsOutput.length = plan.rhs.length := by
    simpa using congrArg List.length names.1
  rw [Plan.askedTypes] at types
  simp only [getData, constructed.joinType, constructed.types, askedOfGetData, lengths]
  cases shape : plan.joinType <;> simp only [shape] at types scanning ⊢ <;> try cases scanning
  · -- the NULL columns come first
    have nulls := copyColumns_ok (fun _ => .ok Output.null) (fun _ => some (Output.null : Output α))
      (List.range plan.lhs.length) (fun _ _ => ⟨_, rfl, rfl⟩) []
      (List.replicate plan.rhs.length none)
    rw [List.length_range, List.nil_append, List.nil_append, List.replicate_append_replicate,
      List.map_const', List.length_range] at nulls
    have after := written (List.replicate plan.lhs.length (some .null))
    rw [List.length_replicate] at after
    rw [types, Nat.add_sub_cancel]
    simp only [bind, Except.bind]
    rw [show (0 : Nat) = ([] : List (Option (Output α))).length from rfl, nulls]
    exact after
  · rw [types]
    exact written []
  · rw [types]
    exact written []

/-- No index is out of range and no entry is read that was not written; unless the join raises
an exception it puts out the columns that the plan asks for. -/
def Sound (type : α → GPUColumnType) (cudf : List α → List α → Option String) (plan : Plan)
    (left right : List α) : Prop :=
  Returns (run type cudf plan left right)
    (askedOfExecute plan left right, askedOfGetData plan right)

/-- The indices of the join are sound exactly when its sink raises before it stores a column or no
build column is the key of two conditions; otherwise an index runs past the end of the keys. -/
theorem run_sound_iff (type : α → GPUColumnType) (cudf : List α → List α → Option String)
    (plan : Plan) (left right : List α) (wellFormed : WellFormed plan)
    (sizeLeft : left.length = plan.leftColumns) (sizeRight : right.length = plan.rightColumns) :
    Sound type cudf plan left right ↔
      SinkRefuses type plan right ∨ (buildIndices plan.conditions).Nodup := by
  obtain ⟨join, made, constructed⟩ := construct_ok wellFormed
  rw [← rights_nodup_iff]
  by_cases accepted : SinkRefuses type plan right
  · obtain ⟨message, failed⟩ := sink_refused wellFormed constructed sizeRight accepted
    refine iff_of_true ?_ (.inl accepted)
    simp only [Sound, run, made, failed, bind, Except.bind]
    trivial
  · have referring := referring_of_accepted wellFormed accepted
    have built := builds_of_accepted wellFormed constructed sizeRight accepted
    rw [or_iff_right accepted]
    constructor
    · intro sound
      by_contra repeated
      have failed := sink_stops referring constructed sizeRight accepted repeated
      simp only [Sound, run, made, failed, bind, Except.bind] at sound
      exact sound
    · intro distinct
      obtain ⟨build, sunk, ⟨stored⟩⟩ :=
        sink_ok referring constructed sizeRight accepted distinct
      have names := names_payload constructed (entries_eq referring distinct)
        (rights_length referring)
      have executed := execute_ok type cudf left constructed wellFormed built stored names sizeLeft
        sizeRight
      refine Returns.bind (.of_eq made) (Returns.bind (.of_eq sunk) (Returns.bind executed ?_))
      by_cases scanning : scans plan.joinType = true
      · have withRhs : keysOnly plan.joinType = false := by
          cases shape : plan.joinType <;> simp [shape, scans, keysOnly] at scanning ⊢
        rw [if_pos scanning]
        exact Returns.bind (.of_eq (getData_ok constructed wellFormed stored (names withRhs)
          sizeRight scanning)) rfl
      · rw [if_neg scanning]
        refine .of_eq ?_
        cases shape : plan.joinType <;> simp [shape, scans, askedOfGetData] at scanning ⊢

/-- A right join of a table of two columns with one of three, of which the first two are keys of the
conditions and the projection asks for the last two and the first one. -/
def keysAndPayload : Plan where
  joinType := .right
  conditions := [⟨.notEqual, some 1, some 1⟩, ⟨.equal, some 0, some 0⟩]
  leftColumns := 2
  rightColumns := 3
  leftProjection := [1]
  rightProjection := [1, 2, 0]
  types := 4

theorem keys_and_payload_sound :
    Sound (fun _ => .int64) (fun _ _ => none) keysAndPayload ["a", "b"] ["c", "d", "e"] ∧
      run (fun _ => .int64) (fun _ _ => none) keysAndPayload ["a", "b"] ["c", "d", "e"] =
        .ok ([some (.column "b"), some (.column "d"), some (.column "e"), some (.column "c")],
          [some .null, some (.column "d"), some (.column "e"), some (.column "c")]) := by
  have wellFormed : WellFormed keysAndPayload := {
    conditions := by simp [keysAndPayload]
    lefts := by simp [keysAndPayload]
    rights := by simp [keysAndPayload]
    leftProjection := by simp [keysAndPayload]
    rightProjection := by simp [keysAndPayload]
    types := rfl }
  exact ⟨(run_sound_iff _ _ _ _ _ wellFormed rfl rfl).mpr (.inr (by decide)), rfl⟩

/-- An inner join of two tables of two columns with the first build column under both conditions. -/
def sharedKey : Plan where
  joinType := .inner
  conditions := [⟨.equal, some 0, some 0⟩, ⟨.equal, some 1, some 0⟩]
  leftColumns := 2
  rightColumns := 2
  leftProjection := []
  rightProjection := [1]
  types := 3

/-- One build column compared with two probe columns. -/
theorem shared_key_out_of_range : ¬ ∀ (type : String → GPUColumnType)
    (cudf : List String → List String → Option String) (plan : Plan) (left right : List String),
    WellFormed plan → left.length = plan.leftColumns → right.length = plan.rightColumns →
      Sound type cudf plan left right := by
  intro sound
  have wellFormed : WellFormed sharedKey := {
    conditions := by simp [sharedKey]
    lefts := by simp [sharedKey]
    rights := by simp [sharedKey]
    leftProjection := by simp [sharedKey]
    rightProjection := by simp [sharedKey]
    types := rfl }
  have failed : run (fun _ => .int64) (fun _ _ => none) sharedKey ["a", "b"] ["c", "d"] =
      .error .outOfRange := rfl
  have ran := sound (fun _ => .int64) (fun _ _ => none) sharedKey ["a", "b"] ["c", "d"] wellFormed
    rfl rfl
  rw [Sound, failed] at ran
  exact ran

end Plan

end HashJoinIndices
